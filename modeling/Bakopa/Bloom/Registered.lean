import Bakopa.Bloom.Disconnect

/-!
# Bakopa.Bloom.Registered

Which sink the peer map of `bloom/ws/src/server.rs` holds for a participant.

The map is written by two steps only: `WebSocketBroadcast::insert` after the handshake, and
`remove_if_same` at the end of `handle_disconnect`. `Registered` says what it holds from the calls
so far: the connection of the participant inserted last, unless that one is torn down.
-/

namespace Bakopa
namespace Bloom

open Lib

/-- The connection whose sink the call inserts. -/
def ServerCall.inserted {ι : Type} : ServerCall ι → Option ι
  | .accept c _ => some c
  | .refuse _ | .frame _ _ _ | .abnormalClose _ | .unregister _ => none

/-- The connection of `p` that `as` inserts last. -/
def latest {ι : Type} (pid : ι → ParticipantId) (p : ParticipantId) (as : List (ServerCall ι)) :
    Option ι :=
  ((as.filterMap ServerCall.inserted).filter (pid · = p)).getLast?

section Latest

variable {ι : Type} {pid : ι → ParticipantId} {p : ParticipantId} {as : List (ServerCall ι)}
  {a : ServerCall ι} {c : ι}

theorem latest_snoc_of_not_inserted (ha : a.inserted = none) :
    latest pid p (as ++ [a]) = latest pid p as := by
  simp [latest, List.filterMap_append, ha]

theorem latest_snoc_of_inserted (ha : a.inserted = some c) :
    latest pid p (as ++ [a]) = if pid c = p then some c else latest pid p as := by
  simp only [latest, List.filterMap_append, List.filter_append, List.filterMap_cons,
    List.filterMap_nil, ha]
  by_cases hp : pid c = p
  · simp [hp]
  · simp [hp]

theorem of_latest (h : latest pid p as = some c) :
    c ∈ as.filterMap ServerCall.inserted ∧ pid c = p := by
  have hmem := List.mem_filter.mp (List.mem_of_getLast? h)
  exact ⟨hmem.1, by simpa using hmem.2⟩

end Latest

namespace PeerMap

variable {ι : Type} {m : PeerMap ι} {p q : ParticipantId} {c d : ι}

theorem insert_eq_some : (m.insert p c).1 q = some d ↔
    (q = p ∧ d = c) ∨ (q ≠ p ∧ m q = some d) := by
  by_cases hq : q = p
  · subst hq
    simp [insert, eq_comm]
  · simp [insert, hq]

theorem removeIfSame_eq_some [DecidableEq ι] : m.removeIfSame p c q = some d ↔
    m q = some d ∧ ¬ (q = p ∧ d = c) := by
  unfold removeIfSame
  cases hm : m p with
  | none =>
    refine ⟨fun h => ⟨h, ?_⟩, fun h => h.1⟩
    rintro ⟨rfl, rfl⟩
    cases hm.symm.trans h
  | some current =>
    by_cases hc : current = c
    · subst hc
      by_cases hq : q = p
      · subst hq
        simp [remove, hm, eq_comm]
      · simp [remove, hq]
    · simp only [if_neg hc]
      refine ⟨fun h => ⟨h, ?_⟩, fun h => h.1⟩
      rintro ⟨rfl, rfl⟩
      exact hc (Option.some.inj (hm.symm.trans h))

end PeerMap

namespace Server

section Steps

variable {ι : Type} [DecidableEq ι] [UuidCrate] [BloomJson] {s s' : Server ι} {a : ServerCall ι}
  {o : List (ι × Wire)} {c : ι} {p : ParticipantId}

theorem processMessage_peers {now lastPong : Nat} {frame : Frame}
    (h : s.processMessage c now lastPong frame = some (s', o)) : s'.peers = s.peers := by
  cases frame with
  | text drawn text =>
    obtain ⟨handlers, os, -, rfl, -⟩ := call_eq_some h
    rfl
  | ping payload => cases h; rfl
  | pong => cases h; rfl
  | binary =>
    simp only [processMessage] at h
    split at h
    · cases h
    · rename_i s₁ o₁ hcall
      cases h
      obtain ⟨handlers, os, -, rfl, -⟩ := call_eq_some hcall
      rfl
  | close code => cases h; rfl
  | readError => cases h; rfl
  | eof => cases h; rfl
  | tick =>
    simp only [processMessage] at h
    split at h
    · cases h; rfl
    · cases h; rfl

theorem step_peers (h : step s a = some (s', o)) :
    s'.peers = match a with
      | .accept c _ => (s.peers.insert (s.pid c) c).1
      | .unregister c => s.peers.removeIfSame (s.pid c) c
      | .refuse _ | .frame _ _ _ | .abnormalClose _ => s.peers := by
  cases a with
  | refuse c =>
    simp only [step] at h
    split at h
    · cases h; rfl
    · cases h
  | accept c now =>
    simp only [step] at h
    split at h
    · cases h; rfl
    · cases h
  | frame c now frame =>
    simp only [step] at h
    split at h
    · exact processMessage_peers h
    · cases h
  | abnormalClose c =>
    simp only [step] at h
    split at h
    · split at h
      · cases h
      · rename_i s₁ o₁ hcall
        cases h
        obtain ⟨handlers, os, -, rfl, -⟩ := call_eq_some hcall
        rfl
    · cases h
  | unregister c =>
    simp only [step] at h
    split at h
    · cases h; rfl
    · cases h; rfl
    · cases h

omit [DecidableEq ι] [UuidCrate] [BloomJson] in
theorem Turn.returned_iff {room : Option RoomId} {l l' : Phase × Option (Frame × Option RoomId)}
    (h : Turn a room l l') : l'.1 = .returned ↔ a = .unregister a.conn ∨ l.1 = .returned := by
  cases h <;> simp [ServerCall.conn]

omit [DecidableEq ι] [UuidCrate] [BloomJson] in
theorem Turn.waiting_of_inserted {room : Option RoomId}
    {l l' : Phase × Option (Frame × Option RoomId)} (h : Turn a room l l')
    (ha : a.inserted = some c) : a.conn = c ∧ l.1 = .waiting := by
  cases h with
  | accept => exact ⟨Option.some.inj ha, rfl⟩
  | refuse => cases ha
  | serve hframe => cases ha
  | finish hframe => cases ha
  | abnormalClose => cases ha
  | unregisterNormal => cases ha
  | unregisterLeft => cases ha

omit [DecidableEq ι] [UuidCrate] [BloomJson] in
/-- A connection that has not entered `process_messages` after its step has not before, and the
step does not insert its sink. -/
theorem Turn.outside {room : Option RoomId} {l l' : Phase × Option (Frame × Option RoomId)}
    (h : Turn a room l l') (hl' : l'.1 = .waiting ∨ l'.1 = .refused) :
    (l.1 = .waiting ∨ l.1 = .refused) ∧ a.inserted = none := by
  cases h with
  | refuse => exact ⟨.inl rfl, rfl⟩
  | accept => simp at hl'
  | serve hframe => simp at hl'
  | finish hframe => simp at hl'
  | abnormalClose => simp at hl'
  | unregisterNormal => simp at hl'
  | unregisterLeft => simp at hl'

theorem step_returned_iff (h : step s a = some (s', o)) :
    s'.phase c = .returned ↔ a = .unregister c ∨ s.phase c = .returned := by
  have hs := step_stepped h
  by_cases hc : c = a.conn
  · subst hc
    exact hs.turn.returned_iff
  · have hphase : s'.phase c = s.phase c := congrArg Prod.fst (hs.others c hc)
    rw [hphase, or_iff_right]
    rintro rfl
    exact hc rfl

/-- What the calls so far say of the peer map and of the connections that are torn down. -/
structure Registered (s₀ s : Server ι) (as : List (ServerCall ι)) : Prop where
  pid : s.pid = s₀.pid
  returned : ∀ c, s.phase c = .returned ↔ .unregister c ∈ as
  outside : ∀ c, s.phase c = .waiting ∨ s.phase c = .refused →
    c ∉ as.filterMap ServerCall.inserted
  peers : ∀ p c, s.peers p = some c ↔ latest s₀.pid p as = some c ∧ .unregister c ∉ as

omit [DecidableEq ι] [UuidCrate] [BloomJson] in
theorem Initial.registered (h : Initial s) : Registered s s [] := by
  refine ⟨rfl, fun c => ?_, fun c _ => List.not_mem_nil, fun p c => ?_⟩
  · simp [h.waiting c]
  · simp [h.peers p, latest]

theorem Registered.step {s₀ : Server ι} {as : List (ServerCall ι)} (hr : Registered s₀ s as)
    (h : step s a = some (s', o)) : Registered s₀ s' (as ++ [a]) := by
  have hs := step_stepped h
  have hpid : s'.pid = s₀.pid := hs.took.pid.trans hr.pid
  have hpeers := step_peers h
  have hmem : ∀ c, .unregister c ∈ as ++ [a] ↔ a = .unregister c ∨ .unregister c ∈ as := by
    intro c
    rw [List.mem_append, List.mem_singleton, or_comm, eq_comm]
  refine ⟨hpid, fun c => ?_, fun c hout => ?_, fun p c => ?_⟩
  · rw [step_returned_iff h, hr.returned c, hmem]
  · rw [List.filterMap_append, List.mem_append, not_or]
    by_cases hc : c = a.conn
    · subst hc
      obtain ⟨hbefore, hins⟩ := hs.turn.outside hout
      exact ⟨hr.outside _ hbefore, by simp [hins]⟩
    · have hphase : s'.phase c = s.phase c := congrArg Prod.fst (hs.others c hc)
      rw [hphase] at hout
      refine ⟨hr.outside c hout, fun hins => hc ?_⟩
      have ha : a.inserted = some c := by simpa [eq_comm] using hins
      exact (hs.turn.waiting_of_inserted ha).1.symm
  · cases a with
    | accept d now =>
      -- the new connection has not run before, so it is not torn down
      have hnew : .unregister d ∉ as := by
        rw [← hr.returned d]
        have hwait : s.phase d = .waiting := (hs.turn.waiting_of_inserted rfl).2
        simp [hwait]
      rw [hpeers, PeerMap.insert_eq_some, latest_snoc_of_inserted rfl, hr.peers, hmem, hr.pid]
      by_cases hp : s₀.pid d = p
      · subst hp
        simp only [true_and, ne_eq, not_true_eq_false, false_and, or_false, if_true,
          Option.some.injEq, reduceCtorEq, false_or]
        exact ⟨fun hc => ⟨hc.symm, hc ▸ hnew⟩, fun hc => hc.1.symm⟩
      · simp [hp, Ne.symm hp]
    | unregister d =>
      rw [hpeers, PeerMap.removeIfSame_eq_some, latest_snoc_of_not_inserted rfl, hr.peers, hmem,
        hr.pid]
      simp only [ServerCall.unregister.injEq, not_or]
      constructor
      · rintro ⟨⟨hlast, hout⟩, hne⟩
        refine ⟨hlast, fun hdc => hne ⟨?_, hdc.symm⟩, hout⟩
        rw [hdc, (of_latest hlast).2]
      · rintro ⟨hlast, hdc, hout⟩
        exact ⟨⟨hlast, hout⟩, fun hc => hdc hc.2.symm⟩
    | refuse d => rw [hpeers, hr.peers, latest_snoc_of_not_inserted rfl, hmem]; simp
    | frame d now frame => rw [hpeers, hr.peers, latest_snoc_of_not_inserted rfl, hmem]; simp
    | abnormalClose d => rw [hpeers, hr.peers, latest_snoc_of_not_inserted rfl, hmem]; simp

/-- In every run, the peer map sends a participant to the connection of it inserted last, until
that connection is torn down, and to nothing otherwise. So an entry never outlives its connection,
and a teardown takes out no entry of another connection. -/
theorem peers_eq_latest {s₀ : Server ι} {as : List (ServerCall ι)} {os : List (ι × Wire)}
    (h₀ : Initial s₀) (hr : Machine.Runs step s₀ as os s) :
    (∀ p, s.peers p = match latest s₀.pid p as with
      | some c => if .unregister c ∈ as then none else some c
      | none => none) ∧
    (∀ p c, s.peers p = some c → ¬ s.Returned c) ∧
    ∀ old s' o, step s (.unregister old) = some (s', o) →
      ∀ p new, new ≠ old → (s'.peers p = some new ↔ s.peers p = some new) := by
  have hreg : Registered s₀ s as :=
    hr.history (I := fun s as _ => Registered s₀ s as) h₀.registered
      fun _ _ _ _ _ _ _ hI ha => hI.step ha
  refine ⟨fun p => ?_, fun p c hp => ?_, fun old s' o hstep p new hne => ?_⟩
  · cases hp : s.peers p with
    | none =>
      cases hl : latest s₀.pid p as with
      | none => rfl
      | some c =>
        have htorn : .unregister c ∈ as := by
          by_contra hout
          have hc := (hreg.peers p c).mpr ⟨hl, hout⟩
          rw [hp] at hc
          cases hc
        exact (if_pos htorn).symm
    | some c =>
      obtain ⟨hl, hout⟩ := (hreg.peers p c).mp hp
      rw [hl]
      exact (if_neg hout).symm
  · obtain ⟨hl, hout⟩ := (hreg.peers p c).mp hp
    rintro (href | hret)
    · exact hreg.outside c (.inr href) (of_latest hl).1
    · exact hout ((hreg.returned c).mp hret)
  · rw [step_peers hstep, PeerMap.removeIfSame_eq_some]
    exact ⟨fun h => h.1, fun h => ⟨h, fun hsame => hne hsame.2⟩⟩

end Steps

def generations : Server Nat where
  handlers := ⟨.new, fun _ => WsHandler.new ⟨1⟩⟩
  phase _ := .waiting
  peers _ := none
  ended _ := none

def lateTeardowns : List (ServerCall Nat) :=
  [.accept 0 0, .frame 0 0 (.close (some .normal)), .accept 1 0, .frame 1 0 .readError,
    .accept 2 0, .abnormalClose 1, .unregister 1, .unregister 0]

theorem peers_eq_latest_late_teardowns :
    let _ := hyphenated
    let _ := Handlers.taggedJson
    ∃ s os, Machine.Runs step generations lateTeardowns os s ∧ s.phase 0 = .returned ∧
      s.phase 1 = .returned ∧ s.peers ⟨1⟩ = some 2 ∧ ¬ s.Returned 2 := by
  intro _ _
  have hinit : Initial generations :=
    ⟨⟨rfl, fun _ => rfl⟩, fun _ => rfl, fun _ => rfl, fun _ => rfl⟩
  have hrun : ∃ s os, Machine.Runs step generations lateTeardowns os s ∧
      s.phase 0 = .returned ∧ s.phase 1 = .returned :=
    ⟨_, _, Machine.run_sound rfl, rfl, rfl⟩
  obtain ⟨s, os, hr, h0, h1⟩ := hrun
  obtain ⟨hpeers, hlives, -⟩ := peers_eq_latest hinit hr
  have h2 : s.peers ⟨1⟩ = some 2 := hpeers ⟨1⟩
  exact ⟨s, os, hr, h0, h1, h2, hlives ⟨1⟩ 2 h2⟩

end Server

end Bloom
end Bakopa

import Bakopa.Bloom.Server

/-!
# Bakopa.Bloom.Disconnect

What is left of a connection in the rooms once `handle_connection` has returned.

`handle_disconnect` gives the slot back only after an abnormal end, through the handler's
`room_id`. So a connection stays listed when it ends with a close frame 1000 or 1001, or with a
binary frame, which clears the `room_id` first: it is `Stranded` in the room it had.

The delayed abnormal close of a connection acts on a participant, not on a connection: where a
second connection carries the same participant id, `Evicts` says when it hits that one.
-/

namespace Bakopa
namespace Bloom

open Lib

/-- The frames after which `leave_room` is not called. -/
def Frame.Strands : Frame → Prop
  | .binary | .close (some .normal) | .close (some .away) => True
  | _ => False

instance (f : Frame) : Decidable f.Strands := by
  unfold Frame.Strands
  split <;> infer_instance

theorem Frame.strands_of_reason_normal {f : Frame} (h : f.reason = .normal) : f.Strands := by
  unfold Frame.reason at h
  split at h
  · trivial
  · trivial
  · cases h

theorem Frame.not_strands_of_reason_abnormal {f : Frame} (h : f.reason = .abnormal)
    (hb : f ≠ .binary) : ¬ f.Strands := by
  unfold Frame.Strands
  split
  · exact absurd rfl hb
  · cases h
  · cases h
  · exact id

namespace Server

variable {ι : Type}

def InRoom (s : Server ι) (c : ι) (room : Option RoomId) : Prop :=
  ∀ r, s.pid c ∈ s.members r ↔ room = some r

/-- What holds of a connection that has never abandoned a room, by its phase. -/
def Orderly (s : Server ι) (c : ι) : Phase × Option (Frame × Option RoomId) → Prop
  | (.waiting, _) | (.refused, _) => s.roomId c = none ∧ s.InRoom c none
  | (.serving _, _) => s.InRoom c (s.roomId c)
  | (.closing reason, e) =>
    ∃ f room, e = some (f, room) ∧ f.reason = reason ∧
      s.roomId c = (if f = .binary then none else room) ∧ s.InRoom c room
  | (.left, e) | (.returned, e) =>
    ∃ f room, e = some (f, room) ∧ s.InRoom c (if f.Strands then room else none)

variable {s s' : Server ι} {c : ι} {r : RoomId} {room : Option RoomId}
  {l l' : Phase × Option (Frame × Option RoomId)}

theorem Initial.inRoom (h : Initial s) : s.InRoom c none := by
  intro r
  rw [members, h.handlers.members r]
  simp

theorem Orderly.congr (hroom : s'.roomId c = s.roomId c)
    (hmem : ∀ r, s'.pid c ∈ s'.members r ↔ s.pid c ∈ s.members r) (h : Orderly s c l) :
    Orderly s' c l := by
  obtain ⟨phase, e⟩ := l
  have hin : ∀ room, s'.InRoom c room ↔ s.InRoom c room := by
    intro room
    simp only [InRoom, hmem]
  cases phase <;> simpa only [Orderly, hin, hroom] using h

section Steps

variable [DecidableEq ι] [UuidCrate] [BloomJson] {a : ServerCall ι} {o : List (ι × Wire)}

/-- A request of a connection that abandons a room. -/
def Abandons (s : Server ι) (a : ServerCall ι) : Prop :=
  match a.handlerCall with
  | none => False
  | some b => s.handlers.Abandons b

def NeverAbandons (c : ι) (s : Server ι) (as : List (ServerCall ι)) : Prop :=
  Machine.Each step (fun s a => a.conn = c → ¬ s.Abandons a) s as

omit [DecidableEq ι] [UuidCrate] [BloomJson] in
theorem orderly_stay (htook : Handlers.Took s.handlers s'.handlers c .stay) (h : Orderly s c l) :
    Orderly s' c l :=
  h.congr htook.room fun _ => htook.mem_own

omit [DecidableEq ι] in
theorem orderly_text {now : Nat} {drawn : RoomId} {text : String}
    (ht : Handlers.Tracked s.handlers)
    (htook : Handlers.Took s.handlers s'.handlers c
      (s.handlers.moveAt (.text c now drawn text)))
    (hno : ¬ s.handlers.Abandons (.text c now drawn text)) (h : s.InRoom c (s.roomId c)) :
    s'.InRoom c (s'.roomId c) := by
  have hset : s.handlers.SettledAt c := fun r hr => (h r).mp hr
  have hstray := mt (Handlers.strays_iff_abandons (by simp)).mp hno
  intro r
  constructor
  · exact fun hr => (htook.settledAt_own ht hset).mpr hstray r hr
  · exact fun hr => htook.held_own ht hr

omit [DecidableEq ι] in
/-- The abnormal close takes a connection out of its room, unless a binary frame has hidden it. -/
theorem orderly_abnormalClose {f : Frame} (hf : f.reason = .abnormal)
    (htook : Handlers.Took s.handlers s'.handlers c (s.handlers.moveAt (.abnormalClose c)))
    (hroom : s.roomId c = if f = .binary then none else room) (hin : s.InRoom c room) :
    s'.InRoom c (if f.Strands then room else none) := by
  intro r
  have hmem : s'.pid c ∈ s'.members r ↔
      (s.handlers.handler c).closeMove.Lists r (s.pid c ∈ s.members r) := htook.mem_own
  change (s.handlers.handler c).roomId = _ at hroom
  rw [hmem, hin r, WsHandler.closeMove, hroom]
  by_cases hb : f = .binary
  · subst hb
    simp [Move.Lists, Frame.Strands]
  · have hns := Frame.not_strands_of_reason_abnormal hf hb
    cases room with
    | none => simp [hb, hns, Move.Lists]
    | some r₀ =>
      simp only [hb, hns, if_false, Move.Lists, Option.some.injEq, reduceCtorEq, iff_false]
      rintro ⟨hne, rfl⟩
      exact hne rfl

omit [DecidableEq ι] in
theorem Turn.orderly (hturn : Turn a (s.roomId c) l l') (hc : a.conn = c)
    (ht : Handlers.Tracked s.handlers)
    (htook : Handlers.Took s.handlers s'.handlers c (s.moveAt a)) (hno : ¬ s.Abandons a)
    (h : Orderly s c l) : Orderly s' c l' := by
  cases hturn with
  | refuse => exact orderly_stay htook h
  | accept =>
    have h' := orderly_stay htook h
    intro r
    rw [h'.1]
    exact h'.2 r
  | @serve c₀ now frame _ t t' e hframe =>
    subst hc
    have hcases : (∃ drawn text, frame = .text drawn text) ∨
        (ServerCall.frame c₀ now frame).handlerCall = none := by
      cases frame with
      | text drawn text => exact .inl ⟨drawn, text, rfl⟩
      | binary => exact absurd rfl hframe
      | _ => exact .inr rfl
    rcases hcases with ⟨drawn, text, rfl⟩ | hcall
    · exact orderly_text ht htook hno h
    · simp only [moveAt, hcall] at htook
      exact orderly_stay (l := (.serving t, e)) htook h
  | @finish c₀ now frame _ t e hframe =>
    subst hc
    cases frame with
    | text drawn text => exact absurd rfl (hframe drawn text)
    | binary =>
      refine ⟨_, _, rfl, rfl, htook.room, fun r => ?_⟩
      exact (htook.mem_own).trans (h r)
    | _ =>
      exact ⟨_, _, rfl, rfl, htook.room, fun r => htook.mem_own.trans (h r)⟩
  | abnormalClose =>
    subst hc
    obtain ⟨f, room, he, hf, hroom, hin⟩ := h
    exact ⟨f, room, he, orderly_abnormalClose hf htook hroom hin⟩
  | unregisterNormal =>
    obtain ⟨f, room, he, hf, -, hin⟩ := orderly_stay htook h
    refine ⟨f, room, he, ?_⟩
    rw [if_pos (Frame.strands_of_reason_normal hf)]
    exact hin
  | unregisterLeft => exact orderly_stay htook h

theorem step_orderly (ht : Handlers.Tracked s.handlers) (hno : a.conn = c → ¬ s.Abandons a)
    (h : Orderly s c (s.life c)) (hstep : step s a = some (s', o)) :
    Orderly s' c (s'.life c) := by
  have hs := step_stepped hstep
  by_cases hc : c = a.conn
  · subst hc
    exact hs.turn.orderly rfl ht hs.took (hno rfl) h
  · have hne : s.pid c ≠ s.pid a.conn := fun heq => hc (ht.distinct heq)
    rw [hs.others c hc]
    refine h.congr (hs.took.others c hc) fun r => ?_
    have hpid : s'.pid c = s.pid c := congrFun hs.took.pid c
    rw [hpid]
    exact hs.took.mem_other hne

theorem step_tracked (ht : Handlers.Tracked s.handlers) (hstep : step s a = some (s', o)) :
    Handlers.Tracked s'.handlers := by
  obtain ⟨bs, ps, hruns⟩ := step_handlers hstep
  exact hruns.invariant (fun _ _ _ _ => Handlers.step_tracked) ht

def Returned (s : Server ι) (c : ι) : Prop := s.phase c = .refused ∨ s.phase c = .returned

def Served (s : Server ι) (c : ι) : Prop := s.phase c ≠ .waiting ∧ ¬ s.Returned c

/-- The connection ended without a leave while its `room_id` was `r`. -/
def Stranded (s : Server ι) (c : ι) (r : RoomId) : Prop :=
  ∃ f, s.ended c = some (f, some r) ∧ f.Strands

omit [DecidableEq ι] [UuidCrate] [BloomJson] in
theorem Orderly.of_returned (h : Orderly s c (s.life c)) (hp : s.phase c = .returned) :
    s.pid c ∈ s.members r ↔ s.Stranded c r := by
  rw [life, hp] at h
  obtain ⟨f, room, he, hin⟩ := h
  rw [hin r, Stranded, he]
  by_cases hf : f.Strands
  · simp [hf]
  · simp [hf]

omit [DecidableEq ι] [UuidCrate] [BloomJson] in
theorem Orderly.of_outside (h : Orderly s c (s.life c))
    (hp : s.phase c = .waiting ∨ s.phase c = .refused) : s.pid c ∉ s.members r := by
  have hin : s.InRoom c none := by
    rcases hp with hp | hp
    · rw [life, hp] at h; exact h.2
    · rw [life, hp] at h; exact h.2
  intro hr
  cases (hin r).mp hr

theorem orderly_of_run {s₀ : Server ι} {as : List (ServerCall ι)} {os : List (ι × Wire)}
    (h₀ : Initial s₀) (hd : Function.Injective s₀.pid) (hr : Machine.Runs step s₀ as os s)
    (hno : NeverAbandons c s₀ as) : Orderly s c (s.life c) := by
  have hstart : Orderly s₀ c (s₀.life c) := by
    rw [life, h₀.waiting c]
    exact ⟨h₀.handlers.outside c, h₀.inRoom⟩
  have hinv := hr.invariant_each
    (I := fun s => Handlers.Tracked s.handlers ∧ Orderly s c (s.life c))
    (fun s a s' o hs hq ha => ⟨step_tracked hs.1 ha, step_orderly hs.1 hq hs.2 ha⟩) hno
    ⟨h₀.handlers.tracked hd, hstart⟩
  exact hinv.2

theorem tracked_of_run {s₀ : Server ι} {as : List (ServerCall ι)} {os : List (ι × Wire)}
    (h₀ : Initial s₀) (hd : Function.Injective s₀.pid) (hr : Machine.Runs step s₀ as os s) :
    Handlers.Tracked s.handlers :=
  hr.invariant (fun _ _ _ _ => step_tracked) (h₀.handlers.tracked hd)

omit [DecidableEq ι] [UuidCrate] [BloomJson] in
theorem Turn.ended_none {room : Option RoomId} (h : Turn a room l l')
    (hl : l.1 = .waiting ∨ l.1 = .refused → l.2 = none) :
    l'.1 = .waiting ∨ l'.1 = .refused → l'.2 = none := by
  cases h <;> simp_all

theorem ended_none_of_run {s₀ : Server ι} {as : List (ServerCall ι)} {os : List (ι × Wire)}
    (h₀ : Initial s₀) (hr : Machine.Runs step s₀ as os s)
    (hp : s.phase c = .waiting ∨ s.phase c = .refused) : s.ended c = none := by
  have hinv := hr.invariant
    (I := fun s => (s.life c).1 = .waiting ∨ (s.life c).1 = .refused → (s.life c).2 = none)
    (fun s a s' o hs ha => by
      have hst := step_stepped ha
      by_cases hc : c = a.conn
      · rw [hc] at hs ⊢; exact hst.turn.ended_none hs
      · rw [hst.others c hc]; exact hs)
    (fun _ => h₀.ended c)
  exact hinv hp

/-- A returned connection that never abandoned a room is listed exactly where it was stranded.
So, when no connection abandons a room, every slot of every room is held by a connection that is
still served or was stranded there, and a room with no such connection does not exist. -/
theorem returned_iff_stranded {s₀ : Server ι} {as : List (ServerCall ι)} {os : List (ι × Wire)}
    (h₀ : Initial s₀) (hd : Function.Injective s₀.pid) (hr : Machine.Runs step s₀ as os s) :
    (∀ c, s.Returned c → NeverAbandons c s₀ as →
      ∀ r, s.pid c ∈ s.members r ↔ s.Stranded c r) ∧
    ((∀ c, NeverAbandons c s₀ as) → ∀ r l, s.handlers.core.rooms.participants r = some l →
      l ≠ [] ∧ ∀ q ∈ l, ∃ c, s.pid c = q ∧ (s.Served c ∨ s.Stranded c r)) := by
  constructor
  · intro c hret hno r
    have hord := orderly_of_run h₀ hd hr hno
    rcases hret with hp | hp
    · have hout := hord.of_outside (r := r) (.inr hp)
      have hend := ended_none_of_run h₀ hr (.inr hp)
      simp [hout, Stranded, hend]
    · exact hord.of_returned hp
  · intro hno r l hl
    have ht := tracked_of_run h₀ hd hr
    refine ⟨fun hnil => ht.inhabited r (hnil ▸ hl), fun q hq => ?_⟩
    have hmem : q ∈ s.members r := by
      rw [members, Handlers.members, RoomManager.members_of_participants hl]
      exact hq
    obtain ⟨c, rfl⟩ := ht.known q r hmem
    have hord := orderly_of_run h₀ hd hr (hno c)
    refine ⟨c, rfl, ?_⟩
    cases hp : s.phase c with
    | waiting => exact absurd hmem (hord.of_outside (.inl hp))
    | refused => exact absurd hmem (hord.of_outside (.inr hp))
    | returned => exact .inr ((hord.of_returned hp).mp hmem)
    | serving t => exact .inl (by simp [Served, Returned, hp])
    | closing reason => exact .inl (by simp [Served, Returned, hp])
    | left => exact .inl (by simp [Served, Returned, hp])

end Steps

def twoConnections : Server Bool where
  handlers := Handlers.twoClients
  phase _ := .waiting
  peers _ := none
  ended _ := none

theorem twoConnections_initial : Initial twoConnections :=
  ⟨Handlers.twoClients_initial, fun _ => rfl, fun _ => rfl, fun _ => rfl⟩

def createAndDrop : List (ServerCall Bool) :=
  [.accept true 0, .frame true 0 (.text ⟨7⟩ Handlers.createRoomText), .frame true 0 .eof,
    .abnormalClose true, .unregister true]

theorem returned_iff_stranded_create_and_drop :
    let _ := hyphenated
    let _ := Handlers.taggedJson
    ∃ s os, Machine.Runs step twoConnections createAndDrop os s ∧ s.Returned true ∧
      ∀ r, s.pid true ∈ s.members r ↔ s.Stranded true r := by
  intro _ _
  have hno : NeverAbandons true twoConnections createAndDrop :=
    .step rfl (fun _ h => h) <| .step rfl (fun _ ⟨_, h, _⟩ => nomatch h) <|
      .step rfl (fun _ h => h) <| .step rfl (fun _ h => h) <| .step rfl (fun _ h => h) trivial
  have hrun : ∃ s os, Machine.Runs step twoConnections createAndDrop os s ∧ s.Returned true :=
    ⟨_, _, Machine.run_sound rfl, .inr rfl⟩
  obtain ⟨s, os, hr, hret⟩ := hrun
  exact ⟨s, os, hr, hret, (returned_iff_stranded twoConnections_initial
    Handlers.twoClients_distinct hr).1 true hret hno⟩

/-- A client that creates a room and closes with 1000 has returned and keeps its slot. -/
theorem create_and_close_stranded :
    let _ := hyphenated
    let _ := Handlers.taggedJson
    ∃ s os, Machine.Runs step twoConnections
        [.accept true 0, .frame true 0 (.text ⟨7⟩ Handlers.createRoomText),
          .frame true 0 (.close (some .normal)), .unregister true] os s ∧
      s.Returned true ∧ s.members ⟨7⟩ = [s.pid true] :=
  ⟨_, _, Machine.run_sound rfl, .inr rfl, rfl⟩

section Replaced

variable [DecidableEq ι] [UuidCrate] [BloomJson] {a : ServerCall ι} {o : List (ι × Wire)}

/-- The steps of `handle_disconnect`. -/
def Teardown : ServerCall ι → Prop
  | .abnormalClose _ | .unregister _ => True
  | .refuse _ | .accept _ _ | .frame _ _ _ => False

def Present (s : Server ι) (new : ι) (r : RoomId) : Prop :=
  s.roomId new = some r ∧ s.pid new ∈ s.members r

def SameParticipant (s : Server ι) (old new : ι) : Prop := new ≠ old ∧ s.pid new = s.pid old

/-- If the step tears down `old`, a `new` that is present in its room stays listed there, and no
member of that room is told that it has left. -/
def KeepsReplacement (old new : ι) (s : Server ι) (a : ServerCall ι) : Prop :=
  Teardown a → a.conn = old → s.SameParticipant old new → ∀ s' o, step s a = some (s', o) →
    ∀ r, s.Present new r → s.pid new ∈ s'.members r ∧
      ∀ q ∈ s.members r, (old, .sent (.sendTo q (.peerDisconnected (s.pid new).toString))) ∉ o

/-- An abnormal close of `old` that hits `new`: its handler names the room of `new`, or a room
that has another member in common with it. -/
def Evicts (old new : ι) (s : Server ι) : ServerCall ι → Prop
  | .abnormalClose c =>
    c = old ∧ s.SameParticipant old new ∧ ∃ r r', s.Present new r ∧ s.roomId old = some r' ∧
      (r' = r ∨ ∃ q, q ≠ s.pid old ∧ q ∈ s.members r ∧ q ∈ s.members r')
  | .refuse _ | .accept _ _ | .frame _ _ _ | .unregister _ => False

theorem unregister_quiet (h : step s (.unregister c) = some (s', o)) :
    s'.handlers = s.handlers ∧ o = [] := by
  have hh : s'.handlers = s.handlers := (step_stepped h).handlers
  simp only [step] at h
  split at h
  · cases h; exact ⟨hh, rfl⟩
  · cases h; exact ⟨hh, rfl⟩
  · cases h

/-- An abnormal close leaves the room of its handler and tells the others in that room. -/
theorem abnormalClose_spec (h : step s (.abnormalClose c) = some (s', o)) :
    (∀ r, s'.members r = if s.roomId c = some r then (s.members r).filter (· ≠ s.pid c)
      else s.members r) ∧
    ∀ q, (c, .sent (.sendTo q (.peerDisconnected (s.pid c).toString))) ∈ o ↔
      ∃ r', s.roomId c = some r' ∧ q ∈ s.members r' ∧ q ≠ s.pid c := by
  have htook := (step_stepped h).took
  constructor
  · intro r
    rw [members, Handlers.members, htook.rooms]
    simp only [moveAt, ServerCall.handlerCall, Handlers.moveAt, WsHandler.closeMove,
      ServerCall.conn]
    cases hr : (s.handlers.handler c).roomId with
    | none =>
      have hroom : s.roomId c = none := hr
      simp [Move.apply, hroom, members, Handlers.members]
    | some r' =>
      have hroom : s.roomId c = some r' := hr
      simp only [Move.apply, RoomManager.members_leaveRoom, hroom, Option.some.injEq]
      by_cases heq : r = r'
      · subst heq; rw [if_pos rfl, if_pos rfl]; rfl
      · rw [if_neg heq, if_neg (Ne.symm heq)]; rfl
  · intro q
    simp only [step] at h
    split at h
    · split at h
      · cases h
      · rename_i hcall
        cases h
        obtain ⟨handlers, os, hs, -, rfl⟩ := call_eq_some hcall
        simp only [Handlers.step, Handlers.put, Option.some.injEq, Prod.mk.injEq] at hs
        obtain ⟨-, rfl⟩ := hs
        simp only [List.map_map, List.mem_map, Function.comp_apply, Prod.mk.injEq, true_and,
          Wire.sent.injEq, exists_eq_right]
        exact WsHandler.peerDisconnected_mem_handleAbnormalClose
    · cases h

theorem keeps_iff_not_evicts {old new : ι} (hstep : step s a = some (s', o)) :
    KeepsReplacement old new s a ↔ ¬ Evicts old new s a := by
  cases a with
  | refuse c => exact ⟨fun _ => id, fun _ ht => ht.elim⟩
  | accept c now => exact ⟨fun _ => id, fun _ ht => ht.elim⟩
  | frame c now frame => exact ⟨fun _ => id, fun _ ht => ht.elim⟩
  | unregister c =>
    refine ⟨fun _ => id, fun _ _ _ _ s₁ o₁ h₁ r hpres => ?_⟩
    obtain ⟨hh, rfl⟩ := unregister_quiet h₁
    rw [members, hh]
    exact ⟨hpres.2, fun _ _ => List.not_mem_nil⟩
  | abnormalClose c =>
    obtain ⟨hmem, hsent⟩ := abnormalClose_spec hstep
    constructor
    · rintro hkeep ⟨rfl, hsame, r, r', hpres, hroom, hcommon⟩
      obtain ⟨hin, hquiet⟩ := hkeep trivial rfl hsame s' o hstep r hpres
      rcases hcommon with rfl | ⟨q, hq, hqr, hqr'⟩
      · rw [hmem, if_pos hroom, hsame.2] at hin
        simp at hin
      · refine hquiet q hqr ?_
        rw [hsame.2]
        exact (hsent q).mpr ⟨r', hroom, hqr', hq⟩
    · rintro hno - rfl hsame s₁ o₁ h₁ r hpres
      rw [hstep] at h₁
      cases h₁
      constructor
      · by_cases hroom : s.roomId c = some r
        · exact absurd ⟨rfl, hsame, r, r, hpres, hroom, .inl rfl⟩ hno
        · rw [hmem, if_neg hroom]
          exact hpres.2
      · intro q hqr hq
        rw [hsame.2] at hq
        obtain ⟨r', hroom, hqr', hqp⟩ := (hsent q).mp hq
        exact hno ⟨rfl, hsame, r, r', hpres, hroom, .inr ⟨q, hqp, hqr, hqr'⟩⟩

/-- For any two connections, in any run: every teardown of the one keeps the other, where both
carry the same participant id, exactly when no abnormal close of the one evicts the other. -/
theorem teardown_keeps_iff (s₀ : Server ι) (as : List (ServerCall ι)) (old new : ι) :
    Machine.Each step (KeepsReplacement old new) s₀ as ↔
      Machine.Each step (fun s a => ¬ Evicts old new s a) s₀ as :=
  Machine.Each.congr fun _ _ _ _ _ hstep => keeps_iff_not_evicts hstep

end Replaced

def sameParticipant : Server Bool :=
  { twoConnections with handlers := ⟨.new, fun _ => WsHandler.new ⟨1⟩⟩ }

/-- The first creates a room and drops; the second joins it before the grace period of the first
is over. -/
def dropAndRejoin : List (ServerCall Bool) :=
  [.accept false 0, .frame false 0 (.text ⟨7⟩ Handlers.createRoomText), .frame false 0 .readError,
    .accept true 0, .frame true 0 (.text ⟨8⟩ Handlers.joinRoomText)]

/-- The delayed abnormal close takes the second connection out of the room it is in. -/
theorem drop_and_rejoin_evicted :
    let _ := hyphenated
    let _ := Handlers.taggedJson
    ∃ s os s' o, Machine.Runs step sameParticipant dropAndRejoin os s ∧
      s.Present true ⟨7⟩ ∧ step s (.abnormalClose false) = some (s', o) ∧
      s'.members ⟨7⟩ = [] ∧ ¬ KeepsReplacement false true s (.abnormalClose false) := by
  intro _ _
  have hrun : ∃ s os s' o, Machine.Runs step sameParticipant dropAndRejoin os s ∧
      s.pid true = s.pid false ∧ s.Present true ⟨7⟩ ∧
      step s (.abnormalClose false) = some (s', o) ∧ s'.members ⟨7⟩ = [] :=
    ⟨_, _, _, _, Machine.run_sound rfl, rfl, ⟨rfl, .head _⟩, rfl, rfl⟩
  obtain ⟨s, os, s', o, hr, hpid, hpres, hstep, hmem⟩ := hrun
  refine ⟨s, os, s', o, hr, hpres, hstep, hmem, fun hkeep => ?_⟩
  have hin := (hkeep trivial rfl ⟨by decide, hpid⟩ s' o hstep ⟨7⟩ hpres).1
  rw [hmem] at hin
  cases hin

end Server

end Bloom
end Bakopa

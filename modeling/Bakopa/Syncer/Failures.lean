import Bakopa.Syncer.Reports

/-!
# Bakopa.Syncer.Failures

What a transport failure does to the participant table.

A failure takes its peer out of the table only when the inbox has not counted one of that peer
before: `failure_emitted` keeps a peer that has rejoined since. Such a failure is `Stale`, and
`failures_remove_iff` says that a run takes failed peers out, and sends them nothing until they
join again, exactly when none of its drains meets one.
-/

namespace Bakopa
namespace Syncer

open Lib Lib.Machine

section Failures

variable [UuidCrate] [SerdeJson]

/-- The batch has a failure of `peer`, and nothing after it registers `peer`. -/
def EndsFailed (peer : ParticipantId) (evs : List TransportEvent) : Prop :=
  ∃ pre post, evs = pre ++ .failure peer :: post ∧
    ∀ ev ∈ post, ev.presence ≠ some (.join peer)

/-- The last failure of `peer` in the batch ends no membership: the present one began after a
failure that is already counted, and no control leave has ended it. -/
def Stale (inbox : TransportInbox) (t : ParticipantTable) (peer : ParticipantId) : Prop :=
  ∃ pre post, inbox.events = pre ++ .failure peer :: post ∧
    (∀ ev ∈ post, ev.presence ≠ some (.join peer)) ∧
    (∀ ev ∈ post, ev.presence ≠ some (.leave peer)) ∧
    Presence.Kept (status inbox.failureEmitted t peer) (opsAbout peer pre)

omit [UuidCrate] [SerdeJson] in
theorem join_mem_about {p : ParticipantId} {op : PresenceOp} :
    .join ∈ op.about p ↔ op = .join p := by
  cases op <;> simp [PresenceOp.about]

omit [UuidCrate] [SerdeJson] in
theorem leave_mem_about {p : ParticipantId} {op : PresenceOp} :
    .leave ∈ op.about p ↔ op = .leave p := by
  cases op <;> simp [PresenceOp.about]

theorem join_mem_opsAbout {p : ParticipantId} {evs : List TransportEvent} :
    .join ∈ opsAbout p evs ↔ ∃ ev ∈ evs, ev.presence = some (.join p) := by
  simp [opsAbout, join_mem_about]

theorem leave_mem_opsAbout {p : ParticipantId} {evs : List TransportEvent} :
    .leave ∈ opsAbout p evs ↔ ∃ ev ∈ evs, ev.presence = some (.leave p) := by
  simp [opsAbout, leave_mem_about]

theorem opsAbout_failure (peer : ParticipantId) (pre post : List TransportEvent) :
    opsAbout peer (pre ++ .failure peer :: post) =
      opsAbout peer pre ++ .fail :: opsAbout peer post := by
  simp [opsAbout, TransportEvent.presence, PresenceOp.about]

theorem mem_after_failure {room : RoomId} {seen : Finset ParticipantId} {t : ParticipantTable}
    {peer : ParticipantId} {pre post : List TransportEvent}
    (hpost : ∀ ev ∈ post, ev.presence ≠ some (.join peer)) :
    peer ∈ (TransportInbox.processEvents room seen t
      (pre ++ .failure peer :: post)).participants.participants ↔
      Presence.Kept (status seen t peer) (opsAbout peer pre) ∧
      ∀ ev ∈ post, ev.presence ≠ some (.leave peer) := by
  have hruns := TransportInbox.processEvents_runs room peer (pre ++ .failure peer :: post) seen t
  rw [opsAbout_failure] at hruns
  have hjoin : .join ∉ opsAbout peer post := by
    rw [join_mem_opsAbout]
    rintro ⟨ev, hev, h⟩
    exact hpost ev hev h
  have hreg := Presence.registered_iff hruns hjoin
  rw [leave_mem_opsAbout] at hreg
  simp only [status, decide_eq_true_eq] at hreg
  rw [hreg]
  simp only [status, not_exists, not_and, ne_eq]

/-- Every pose, chat or voice message to `peer` comes after a join of `peer`. -/
def Unrouted (peer : ParticipantId) (acts : List Act) : Prop :=
  ∀ before m after, acts = before ++ .send m :: after → m.target = peer →
    m.kind ≠ .controlJoin → .event (.peerJoined peer) ∈ before

namespace BasicSyncer

variable {τ : Type} [Transport τ]

omit [UuidCrate] [SerdeJson] in
theorem joined_of_track {p : ParticipantId} {es : List SyncerEvent} {l : List ParticipantId}
    (hp : p ∉ l) (h : p ∈ es.foldl ParticipantTable.track l) : .peerJoined p ∈ es := by
  induction es generalizing l with
  | nil => exact absurd h hp
  | cons e es ih =>
    rw [List.foldl_cons] at h
    by_cases he : p ∈ ParticipantTable.track l e
    · cases e with
      | peerJoined q =>
        simp only [ParticipantTable.track, List.mem_append, List.mem_singleton] at he
        rcases he with he | rfl
        · exact absurd he hp
        · exact List.mem_cons_self
      | peerLeft q => exact absurd (List.mem_of_mem_erase he) hp
      | _ => exact absurd he hp
    · exact List.mem_cons_of_mem e (ih he h)

omit [Transport τ] [UuidCrate] [SerdeJson] in
theorem event_mem_of_returned {e : SyncerEvent} {acts : List Act} (h : e ∈ returned acts) :
    .event e ∈ acts := by
  simp only [returned, List.mem_filterMap] at h
  obtain ⟨a, ha, hae⟩ := h
  cases a <;> simp at hae
  rwa [hae] at ha

theorem send_not_mem_drain (s : BasicSyncer τ) (m : Message) :
    .send m ∉ s.drainTransportEvents.2 := by
  cases hroom : s.room with
  | none => rw [drain_none hroom]; simp
  | some room => rw [drain_some hroom]; simp

theorem prim_sends {s s' : BasicSyncer τ} {a : Prim τ} {o : List Act} {m : Message}
    (h : prim s a = some (s', o)) (hm : .send m ∈ o) :
    m.target ∈ s.participants.participants ∨ m.kind = .controlJoin := by
  cases a with
  | drain =>
    rw [show o = s.drainTransportEvents.2 from (congrArg Prod.snd (Option.some.inj h)).symm] at hm
    exact absurd hm (s.send_not_mem_drain m)
  | limit streamKind now =>
    obtain ⟨-, rfl | rfl⟩ := limit_cases h <;> simp at hm
  | enter room p =>
    cases h
    simp only [List.mem_cons, Act.send.injEq, reduceCtorEq, List.mem_map, and_false, exists_false,
      or_false] at hm
    exact .inr (by rw [hm]; rfl)
  | send m' =>
    obtain ⟨hreg, -, rfl⟩ := send_cases h
    rw [List.mem_singleton, Act.send.injEq] at hm
    exact .inl (hm ▸ hreg)
  | push ev => cases h; cases hm
  | rebind transport => cases h; cases hm

theorem unrouted_of_run {s s' : BasicSyncer τ} {ps : List (Prim τ)} {acts : List Act}
    {peer : ParticipantId} (h : Runs prim s ps acts s')
    (hpeer : peer ∉ s.participants.participants) : Unrouted peer acts := by
  intro before m after hacts htarget hkind
  obtain ⟨qs, pre, s₁, a, o₁, o₂, s₂, rs, post, hpre, hstep, -, rfl, -⟩ := h.split_output hacts
  have hreg : peer ∈ s₁.participants.participants := by
    rw [← htarget]
    exact (prim_sends hstep (by simp)).resolve_right hkind
  -- the peer is registered when it is sent the message, so it has joined before that
  have htrack : (returned pre).foldl ParticipantTable.track s.participants.participants =
      s₁.participants.participants := runs_track hpre
  rw [← htrack] at hreg
  exact List.mem_append_left _ (event_mem_of_returned (joined_of_track hpeer hreg))

/-- A mark stands at the end of a drain of the inbox and the table that it names. -/
theorem drain_of_mark {s s' : BasicSyncer τ} {a : Prim τ} {o₁ o₂ : List Act} {room : RoomId}
    {inbox : TransportInbox} {t : ParticipantTable}
    (h : prim s a = some (s', o₁ ++ .drained room inbox t :: o₂)) :
    o₂ = [] ∧ s'.participants = (inbox.drainIntoEvents room t).2.1 := by
  have hmem : Act.drained room inbox t ∈ o₁ ++ .drained room inbox t :: o₂ := by simp
  cases a with
  | drain =>
    have h : s.drainTransportEvents = (s', o₁ ++ .drained room inbox t :: o₂) := Option.some.inj h
    cases hroom : s.room with
    | none =>
      rw [drain_none hroom] at h
      simp at h
    | some room' =>
      rw [drain_some hroom, Prod.mk.injEq] at h
      obtain ⟨rfl, hacts⟩ := h
      rcases snoc_split hacts with ⟨rfl, -, hmark⟩ | ⟨rest, rfl, hevents⟩
      · cases hmark
        exact ⟨rfl, rfl⟩
      · -- the mark would stand among the events
        have hmem : Act.drained room inbox t ∈ o₁ ++ .drained room inbox t :: rest := by simp
        rw [← hevents] at hmem
        simp at hmem
  | limit streamKind now =>
    obtain ⟨-, ho | ho⟩ := limit_cases h
    · simp at ho
    · rw [ho] at hmem
      simp at hmem
  | enter room' p =>
    have ho : (s.enterRoom room' p).2 = o₁ ++ .drained room inbox t :: o₂ :=
      congrArg Prod.snd (Option.some.inj h)
    rw [← ho] at hmem
    simp [enterRoom] at hmem
  | send m =>
    obtain ⟨-, -, ho⟩ := send_cases h
    rw [ho] at hmem
    simp at hmem
  | push ev => simp [prim] at h
  | rebind transport => simp [prim] at h

theorem failures_remove_iff {me : ParticipantId} {transport : τ} {limiter : RateLimiter}
    {s' : BasicSyncer τ} {cs : List (Call τ)} {acts : List Act}
    (h : Runs calls (withRateLimiter me transport limiter) cs acts s') :
    (∀ before room inbox t after, acts = before ++ .drained room inbox t :: after →
      ∀ peer, EndsFailed peer inbox.events →
        peer ∉ (inbox.drainIntoEvents room t).2.1.participants ∧ Unrouted peer after) ↔
    ∀ room inbox t, .drained room inbox t ∈ acts → ∀ peer, ¬ Stale inbox t peer := by
  obtain ⟨ps, hps, -⟩ := calls_expand h
  constructor
  · rintro hremoved room inbox t hmem peer ⟨pre, post, hevs, hjoin, hleave, hkept⟩
    obtain ⟨before, after, rfl⟩ := List.append_of_mem hmem
    refine (hremoved before room inbox t after rfl peer ⟨pre, post, hevs, hjoin⟩).1 ?_
    simp only [TransportInbox.drainIntoEvents, hevs]
    exact (mem_after_failure hjoin).mpr ⟨hkept, hleave⟩
  · rintro hstale before room inbox t after rfl peer ⟨pre, post, hevs, hjoin⟩
    have hout : peer ∉ (inbox.drainIntoEvents room t).2.1.participants := by
      intro hin
      simp only [TransportInbox.drainIntoEvents, hevs] at hin
      obtain ⟨hkept, hleave⟩ := (mem_after_failure hjoin).mp hin
      exact hstale room inbox t (by simp) peer ⟨pre, post, hevs, hjoin, hleave, hkept⟩
    refine ⟨hout, ?_⟩
    obtain ⟨qs, pre', s₁, a, o₁, o₂, s₂, rs, post', -, hstep, hafter, -, rfl⟩ :=
      hps.split_output rfl
    obtain ⟨rfl, htable⟩ := drain_of_mark hstep
    rw [← htable] at hout
    exact unrouted_of_run hafter hout

end BasicSyncer

end Failures

namespace BasicSyncer

theorem failures_remove_iff_join_and_fail :
    let _ := hyphenated
    let _ := JsonText.serdeText
    ∃ s acts, Runs calls aliceSyncer joinAndFail acts s ∧ s.participantsSnapshot = [alice] ∧
      ((∀ before room inbox t after, acts = before ++ .drained room inbox t :: after →
        ∀ peer, EndsFailed peer inbox.events →
          peer ∉ (inbox.drainIntoEvents room t).2.1.participants ∧ Unrouted peer after) ↔
      ∀ room inbox t, .drained room inbox t ∈ acts → ∀ peer, ¬ Stale inbox t peer) := by
  intro _ _
  have hrun : (run calls aliceSyncer joinAndFail).map (fun r => r.1.participantsSnapshot) =
      some [alice] := by decide +kernel
  obtain ⟨⟨s, acts⟩, hr, htable⟩ := Option.map_eq_some_iff.mp hrun
  exact ⟨s, acts, run_sound hr, htable, failures_remove_iff (run_sound hr)⟩

/-- `bob` joins, fails, joins again and fails again: he stays in the table. -/
theorem second_failure_ignored :
    let _ := hyphenated
    let _ := JsonText.serdeText
    ∃ s acts before inbox t, Runs calls aliceSyncer
        [.handle 0 (.join lobby alice), .pushTransportEvent bobJoins,
          .pushTransportEvent (.failure bob), .pushTransportEvent bobJoins,
          .pushTransportEvent (.failure bob), .pollOnly] acts s ∧
      acts = before ++ [.drained lobby inbox t] ∧ EndsFailed bob inbox.events ∧
      (inbox.drainIntoEvents lobby t).2.1.participants = [alice, bob] := by
  intro _ _
  have hrun : (run calls aliceSyncer [.handle 0 (.join lobby alice), .pushTransportEvent bobJoins,
      .pushTransportEvent (.failure bob), .pushTransportEvent bobJoins,
      .pushTransportEvent (.failure bob)]).map (fun r => (r.1.room, r.1.polled.events,
        (r.1.polled.drainIntoEvents lobby r.1.participants).2.1.participants)) =
      some (some lobby, [bobJoins, .failure bob, bobJoins, .failure bob], [alice, bob]) := by
    decide +kernel
  obtain ⟨⟨s, acts⟩, hr, hs⟩ := Option.map_eq_some_iff.mp hrun
  simp only [Prod.mk.injEq] at hs
  obtain ⟨hroom, hevents, htable⟩ := hs
  have hpoll : calls s .pollOnly = some s.drainTransportEvents := rfl
  rw [drain_some hroom] at hpoll
  refine ⟨_, _, _, s.polled, s.participants, (run_sound hr).trans (Runs.single hpoll),
    (List.append_assoc _ _ _).symm, ?_, htable⟩
  rw [hevents]
  exact ⟨[bobJoins, .failure bob, bobJoins], [], rfl, by simp⟩

end BasicSyncer

end Syncer
end Bakopa

import Bakopa.Syncer.Failures

/-!
# Bakopa.Syncer.Scope

What a change of the room leaves in the participant table.

A `Join` request replaces the room and adds its participant to the table, which keeps everyone
else. Only what the same call drains afterwards can take them out. `scoped_iff` says that a run
keeps its table and its sends to those who have joined since the room changed exactly when, at
every change, that drain brings a join, a leave or an uncounted failure of everyone who was there.
-/

namespace Bakopa
namespace Syncer

open Lib Lib.Machine

section Scope

variable [UuidCrate] [SerdeJson] {q : ParticipantId} {acts o : List Act}

omit [UuidCrate] [SerdeJson] in
theorem unrouted_nil : Unrouted q [] := by
  intro before m after h
  simp at h

omit [UuidCrate] [SerdeJson] in
theorem Unrouted.append (h : Unrouted q acts)
    (ho : ∀ m, .send m ∈ o → m.target = q → m.kind ≠ .controlJoin →
      .event (.peerJoined q) ∈ acts) : Unrouted q (acts ++ o) := by
  intro before m after heq htarget hkind
  rcases List.append_eq_append_iff.mp heq with ⟨rest, rfl, hrest⟩ | ⟨rest, rfl, hrest⟩
  · exact List.mem_append_left rest (ho m (by simp [hrest]) htarget hkind)
  · cases rest with
    | nil =>
      rw [List.nil_append] at hrest
      rw [List.append_nil] at ho
      exact ho m (hrest ▸ List.mem_cons_self) htarget hkind
    | cons x rest =>
      rw [List.cons_append, List.cons.injEq] at hrest
      obtain ⟨rfl, -⟩ := hrest
      exact h before m rest rfl htarget hkind

namespace BasicSyncer

variable {τ : Type} [Transport τ] {s s' : BasicSyncer τ}

/-- After `acts`, a `q` in the table has joined in them, and so has a `q` that is sent a pose, a
chat or a voice frame. -/
structure Scoped (q : ParticipantId) (acts : List Act) (s : BasicSyncer τ) : Prop where
  member : q ∈ s.participantsSnapshot → .event (.peerJoined q) ∈ acts
  unrouted : Unrouted q acts

theorem Scoped.step {a : Prim τ} (h : Scoped q acts s) (hs : prim s a = some (s', o)) :
    Scoped q (acts ++ o) s' where
  member hq := by
    by_cases hold : q ∈ s.participantsSnapshot
    · exact List.mem_append_left o (h.member hold)
    · rw [← prim_track hs] at hq
      exact List.mem_append_right acts (event_mem_of_returned (joined_of_track hold hq))
  unrouted := by
    refine h.unrouted.append fun m hm htarget hkind => ?_
    have hreg := (prim_sends hs hm).resolve_right hkind
    rw [htarget] at hreg
    exact h.member hreg

theorem Scoped.run {ps : List (Prim τ)} (h : Scoped q acts s) (hs : Runs prim s ps o s') :
    Scoped q (acts ++ o) s' := by
  induction hs generalizing acts with
  | nil => rwa [List.append_nil]
  | cons ha _ ih =>
    rw [← List.append_assoc]
    exact ih (h.step ha)

/-- The next drain brings a join, a leave, or a failure of `q` that counts. -/
def Cleared (q : ParticipantId) (s : BasicSyncer τ) : Prop :=
  .join ∈ opsAbout q s.polled.events ∨ .leave ∈ opsAbout q s.polled.events ∨
  (.fail ∈ opsAbout q s.polled.events ∧ q ∉ s.polled.failureEmitted)

omit [UuidCrate] [SerdeJson] in
theorem joined_mem_about : .joined ∈ (returned acts).flatMap (SyncerEvent.about q) ↔
    .event (.peerJoined q) ∈ acts := by
  constructor
  · intro h
    obtain ⟨e, he, habout⟩ := List.mem_flatMap.mp h
    have heq : e = .peerJoined q := by
      cases e <;> simp [SyncerEvent.about] at habout ⊢
      exact habout
    exact event_mem_of_returned (heq ▸ he)
  · intro h
    have he : .peerJoined q ∈ returned acts := by
      simp only [returned, List.mem_filterMap]
      exact ⟨_, h, rfl⟩
    exact List.mem_flatMap.mpr ⟨_, he, by simp [SyncerEvent.about]⟩

theorem drain_scoped_iff {room : RoomId} (hroom : s.room = some room) :
    (q ∈ s.drainTransportEvents.1.participantsSnapshot →
      .event (.peerJoined q) ∈ s.drainTransportEvents.2) ↔
    (q ∈ s.participantsSnapshot → Cleared q s) := by
  have hruns := drain_presence q s
  rw [ops_drain q hroom] at hruns
  rw [← joined_mem_about, Presence.joined_mem_iff hruns]
  by_cases hjoin : .join ∈ opsAbout q s.polled.events
  · exact iff_of_true (fun _ => hjoin) fun _ => .inl hjoin
  · have hreg := Presence.registered_of_no_join hruns hjoin
    simp only [statusOf, status, decide_eq_true_eq] at hreg
    have hseen : s.polled.failureEmitted = s.inbox.failureEmitted := rfl
    simp only [participantsSnapshot, Cleared, hjoin, hreg, hseen, imp_false, false_or]
    tauto

theorem enter_unrouted (s : BasicSyncer τ) (roomId : RoomId) (p q : ParticipantId) :
    Unrouted q (s.enterRoom roomId p).2 := by
  rw [← List.nil_append (s.enterRoom roomId p).2]
  refine unrouted_nil.append fun m hm _ hkind => ?_
  simp only [enterRoom, List.mem_cons, Act.send.injEq, reduceCtorEq, List.mem_map, and_false,
    exists_false, or_false] at hm
  rw [hm] at hkind
  exact absurd rfl hkind

theorem enter_joins {s : BasicSyncer τ} {roomId : RoomId} {p : ParticipantId}
    (h : .event (.peerJoined q) ∈ (s.enterRoom roomId p).2) : q = p := by
  have hruns := s.enter_presence q roomId p
  rw [ops_enter] at hruns
  have hjoin := (Presence.joined_mem_iff hruns).mp (joined_mem_about.mpr h)
  rw [join_mem_about, PresenceOp.join.injEq] at hjoin
  exact hjoin.symm

/-- The calls `cs` ask, in state `s` and in another room, that `p` join `roomId`. -/
def Changes (s₀ : BasicSyncer τ) (cs : List (Call τ)) (s : BasicSyncer τ) (now : Nat)
    (roomId : RoomId) (p : ParticipantId) (later : List (Call τ)) : Prop :=
  ∃ before acts room, cs = before ++ .handle now (.join roomId p) :: later ∧
    Runs calls s₀ before acts s ∧ s.room = some room ∧ room ≠ roomId

/-- One change of the room: the rest of the run is scoped when the call's own drain clears the
table. -/
theorem change_scoped_iff (s : BasicSyncer τ) (now : Nat) (roomId : RoomId)
    {p q : ParticipantId} (hq : q ≠ p) (later : List (Call τ)) :
    (∀ cs acts s', cs <+: later → Runs calls (s.handle now (.join roomId p)).1 cs acts s' →
      Scoped q ((s.drainTransportEvents.1.handleRequest now (.join roomId p)).2 ++ acts) s') ↔
    (q ∈ s.drainTransportEvents.1.participantsSnapshot →
      Cleared q (s.drainTransportEvents.1.enterRoom roomId p).1) := by
  generalize hs₁ : s.drainTransportEvents.1 = s₁
  have hcall : (s.handle now (.join roomId p)).1 =
      (s₁.enterRoom roomId p).1.drainTransportEvents.1 := by
    rw [← hs₁]
    rfl
  have hacts : (s₁.handleRequest now (.join roomId p)).2 =
      (s₁.enterRoom roomId p).2 ++ (s₁.enterRoom roomId p).1.drainTransportEvents.2 := rfl
  have hmem : q ∈ (s₁.enterRoom roomId p).1.participantsSnapshot ↔ q ∈ s₁.participantsSnapshot := by
    have hjoin := ParticipantTable.mem_applyJoin (t := s₁.participants) (p := p) (q := q)
    exact hjoin.trans (or_iff_right hq)
  have hroom : (s₁.enterRoom roomId p).1.room = some roomId := rfl
  rw [hcall, hacts, ← hmem, ← drain_scoped_iff hroom]
  constructor
  · intro h hin
    have hscoped := h [] [] _ List.nil_prefix .nil
    rw [List.append_nil] at hscoped
    rcases List.mem_append.mp (hscoped.member hin) with he | he
    · exact absurd (enter_joins he) hq
    · exact he
  · intro h ds acts s' _ hrun
    have hscoped : Scoped q ((s₁.enterRoom roomId p).2 ++
        (s₁.enterRoom roomId p).1.drainTransportEvents.2)
        (s₁.enterRoom roomId p).1.drainTransportEvents.1 := by
      refine ⟨fun hin => List.mem_append_right _ (h hin), ?_⟩
      refine (enter_unrouted s₁ roomId p q).append fun m hm _ _ => ?_
      exact absurd hm (send_not_mem_drain _ m)
    obtain ⟨ps, hps, -⟩ := calls_expand hrun
    exact hscoped.run hps

theorem scoped_iff (me : ParticipantId) (transport : τ) (limiter : RateLimiter)
    (cs : List (Call τ)) :
    (∀ s now roomId p later,
      Changes (withRateLimiter me transport limiter) cs s now roomId p later →
      ∀ q ≠ p, ∀ ds acts s', ds <+: later →
        Runs calls (s.handle now (.join roomId p)).1 ds acts s' →
        Scoped q ((s.drainTransportEvents.1.handleRequest now (.join roomId p)).2 ++ acts) s') ↔
    ∀ s now roomId p later,
      Changes (withRateLimiter me transport limiter) cs s now roomId p later →
      ∀ q ≠ p, q ∈ s.drainTransportEvents.1.participantsSnapshot →
        Cleared q (s.drainTransportEvents.1.enterRoom roomId p).1 := by
  constructor
  · intro h s now roomId p later hchange q hq
    exact (change_scoped_iff s now roomId hq later).mp (h s now roomId p later hchange q hq)
  · intro h s now roomId p later hchange q hq
    exact (change_scoped_iff s now roomId hq later).mpr (h s now roomId p later hchange q hq)

end BasicSyncer

end Scope

namespace BasicSyncer

def sends (acts : List Act) : List (StreamKind × ParticipantId) :=
  acts.filterMap fun
    | .send m => some (m.kind, m.target)
    | _ => none

/-- `bob` joins `alice` in the lobby. She moves on to another room, and what she says there goes
to `bob`, of whom nothing was heard since. -/
theorem said_to_the_lobby :
    let _ := hyphenated
    let _ := JsonText.serdeText
    let annex : RoomId := ⟨8⟩
    ∃ s acts s' acts', Runs calls aliceSyncer
        [.handle 0 (.join lobby alice), .pushTransportEvent bobJoins, .pollOnly] acts s ∧
      s.room = some lobby ∧ s.participantsSnapshot = [alice, bob] ∧
      Runs calls s [.handle 0 (.join annex alice),
        .handle 0 (.sendChat ⟨1, 0, 1, "alice", "hello"⟩ ⟨annex, alice, .chat⟩)] acts' s' ∧
      returned acts' = [.peerLeft alice, .peerJoined alice, .selfJoined annex alice] ∧
      sends acts' = [(.controlJoin, alice), (.chat, bob)] ∧
      s'.participantsSnapshot = [bob, alice] ∧ ¬ Scoped bob acts' s' := by
  intro _ _ annex
  have hbefore : (run calls aliceSyncer [.handle 0 (.join lobby alice),
      .pushTransportEvent bobJoins, .pollOnly]).map (fun r =>
        (r.1.room, r.1.participantsSnapshot)) = some (some lobby, [alice, bob]) := by
    decide +kernel
  have hafter : (run calls aliceSyncer [.handle 0 (.join lobby alice),
      .pushTransportEvent bobJoins, .pollOnly]).bind (fun r =>
        (run calls r.1 [.handle 0 (.join annex alice),
          .handle 0 (.sendChat ⟨1, 0, 1, "alice", "hello"⟩ ⟨annex, alice, .chat⟩)]).map fun r' =>
            (returned r'.2, sends r'.2, r'.1.participantsSnapshot)) =
      some ([.peerLeft alice, .peerJoined alice, .selfJoined annex alice],
        [(.controlJoin, alice), (.chat, bob)], [bob, alice]) := by decide +kernel
  obtain ⟨⟨s, acts⟩, hr, hlater⟩ := Option.bind_eq_some_iff.mp hafter
  obtain ⟨⟨s', acts'⟩, hr', hs'⟩ := Option.map_eq_some_iff.mp hlater
  rw [hr] at hbefore
  simp only [Option.map_some, Option.some.injEq, Prod.mk.injEq] at hbefore hs'
  obtain ⟨hroom, htable⟩ := hbefore
  obtain ⟨hevents, hsends, htable'⟩ := hs'
  refine ⟨s, acts, s', acts', run_sound hr, hroom, htable, run_sound hr', hevents, hsends,
    htable', fun hscoped => ?_⟩
  have hjoined := joined_mem_about.mpr (hscoped.member (by simp [htable']))
  rw [hevents] at hjoined
  revert hjoined
  decide

end BasicSyncer

end Syncer
end Bakopa

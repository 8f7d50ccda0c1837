import Bakopa.Syncer.BasicSyncer
import Bakopa.Syncer.JsonText
import Bakopa.Syncer.WebrtcTransport

/-!
# Bakopa.Syncer.Reports

What a caller learns about the participants from the events that `handle` and `poll_only` return.

* `snapshot_tracked` — the events, played back, give the snapshot, in its order.
* `departures_once_iff` — a departure is reported twice exactly in the runs in which a participant's
  first failure comes after a membership that a control leave has ended.
-/

namespace Bakopa
namespace Syncer
namespace BasicSyncer

open Lib Lib.Machine

section Samples

def alice : ParticipantId := ⟨1⟩

def bob : ParticipantId := ⟨2⟩

def lobby : RoomId := ⟨7⟩

def aliceSyncer [UuidCrate] : BasicSyncer WebrtcTransport :=
  .new alice (WebrtcTransport.pair alice bob).1

/-- A control message of `bob`, as it comes in. -/
def fromBob [SerdeJson] (m : ControlMessage) : TransportEvent :=
  .received bob (.bytes (SerdeJson.toVec ⟨1, m.kindStream, m.toValue⟩))

def bobJoins [UuidCrate] [SerdeJson] : TransportEvent := fromBob (.join ⟨bob.toString, none, none⟩)

def bobLeaves [UuidCrate] [SerdeJson] : TransportEvent :=
  fromBob (.leave ⟨bob.toString, none, none⟩)

def joinAndFail : List (Call WebrtcTransport) :=
  [.handle 0 (.join lobby alice), .handle 0 (.join lobby bob),
    .pushTransportEvent (.failure bob), .pollOnly]

end Samples

section Table

variable {τ : Type} [Transport τ] [UuidCrate] [SerdeJson]

theorem drain_track (s : BasicSyncer τ) :
    (returned s.drainTransportEvents.2).foldl ParticipantTable.track s.participantsSnapshot =
      s.drainTransportEvents.1.participantsSnapshot := by
  cases h : s.room with
  | none => rw [drain_none h]; rfl
  | some room =>
    rw [returned_drain h, drain_some h]
    exact TransportInbox.processEvents_track _ _ _

theorem enter_track (s : BasicSyncer τ) (room : RoomId) (p : ParticipantId) :
    (returned (s.enterRoom room p).2).foldl ParticipantTable.track s.participantsSnapshot =
      (s.enterRoom room p).1.participantsSnapshot := by
  rw [returned_enter, List.foldl_append]
  exact ParticipantTable.track_applyJoin

theorem prim_track {s s' : BasicSyncer τ} {a : Prim τ} {o : List Act}
    (h : prim s a = some (s', o)) :
    (returned o).foldl ParticipantTable.track s.participantsSnapshot = s'.participantsSnapshot := by
  cases a with
  | drain =>
    have htrack := s.drain_track
    rwa [show s.drainTransportEvents = (s', o) from Option.some.inj h] at htrack
  | limit streamKind now =>
    obtain ⟨⟨l, rfl⟩, rfl | rfl⟩ := limit_cases h
    · rfl
    · rfl
  | enter room p => cases h; exact s.enter_track room p
  | send m =>
    obtain ⟨-, rfl, rfl⟩ := send_cases h
    rfl
  | push ev => cases h; rfl
  | rebind transport => cases h; rfl

/-- What a listener does with an act: only the events reach it. -/
def trackAct (l : List ParticipantId) : Act → List ParticipantId
  | .event e => ParticipantTable.track l e
  | _ => l

omit [Transport τ] [UuidCrate] [SerdeJson] in
theorem foldl_trackAct (acts : List Act) (l : List ParticipantId) :
    acts.foldl trackAct l = (returned acts).foldl ParticipantTable.track l := by
  induction acts generalizing l with
  | nil => rfl
  | cons a acts ih => cases a <;> simpa [trackAct] using ih _

theorem runs_track {s s' : BasicSyncer τ} {ps : List (Prim τ)} {acts : List Act}
    (h : Runs prim s ps acts s') :
    (returned acts).foldl ParticipantTable.track s.participantsSnapshot =
      s'.participantsSnapshot := by
  rw [← foldl_trackAct]
  refine h.foldl_view (fun s a s' o ha => ?_)
  rw [foldl_trackAct]
  exact prim_track ha

/-- Every call returns the events that explain what it did to the table. Hence the events returned
so far, played back from the empty list, give the snapshot. -/
theorem snapshot_tracked {me : ParticipantId} {transport : τ} {limiter : RateLimiter}
    {s' : BasicSyncer τ} {cs : List (Call τ)} {acts : List Act}
    (h : Runs calls (withRateLimiter me transport limiter) cs acts s') :
    (returned acts).foldl ParticipantTable.track [] = s'.participantsSnapshot ∧
    s'.participantsSnapshot.Nodup ∧
    ∀ call s'' o, calls s' call = some (s'', o) →
      (returned o).foldl ParticipantTable.track s'.participantsSnapshot =
        s''.participantsSnapshot := by
  obtain ⟨ps, hps, -⟩ := calls_expand h
  refine ⟨runs_track hps, s'.participants.nodup_participants, ?_⟩
  intro call s'' o hcall
  obtain ⟨qs, hqs, -⟩ := call_runs hcall
  exact runs_track hqs

end Table

theorem snapshot_tracked_join_and_fail :
    let _ := hyphenated
    let _ := JsonText.serdeText
    ∃ s acts, Runs calls aliceSyncer joinAndFail acts s ∧
      returned acts = [.peerJoined alice, .selfJoined lobby alice, .peerJoined bob,
        .selfJoined lobby bob, .peerLeft bob] ∧
      (returned acts).foldl ParticipantTable.track [] = s.participantsSnapshot ∧
      s.participantsSnapshot.Nodup ∧
      ∀ call s' o, calls s call = some (s', o) →
        (returned o).foldl ParticipantTable.track s.participantsSnapshot =
          s'.participantsSnapshot := by
  intro _ _
  have hrun : (run calls aliceSyncer joinAndFail).map (fun r => returned r.2) =
      some [.peerJoined alice, .selfJoined lobby alice, .peerJoined bob, .selfJoined lobby bob,
        .peerLeft bob] := by decide +kernel
  obtain ⟨⟨s, acts⟩, hr, hacts⟩ := Option.map_eq_some_iff.mp hrun
  exact ⟨s, acts, run_sound hr, hacts, snapshot_tracked (run_sound hr)⟩

section Departures

variable {τ : Type} [Transport τ] [UuidCrate] [SerdeJson]

/-- What was done to the presence of `p`: by a request, or by the events of a drain. -/
def Act.ops (p : ParticipantId) : Act → List Presence.Op
  | .joining q => (PresenceOp.join q).about p
  | .drained _ inbox _ => opsAbout p inbox.events
  | _ => []

/-- What was said about the presence of `p`. -/
def Act.reports (p : ParticipantId) : Act → List Presence.Report
  | .event e => e.about p
  | _ => []

def statusOf (p : ParticipantId) (s : BasicSyncer τ) : Presence.Status :=
  status s.inbox.failureEmitted s.participants p

omit [UuidCrate] [SerdeJson] in
theorem flatMap_reports (p : ParticipantId) (acts : List Act) :
    acts.flatMap (Act.reports p) = (returned acts).flatMap (SyncerEvent.about p) := by
  induction acts with
  | nil => rfl
  | cons a acts ih => cases a <;> simpa [Act.reports] using ih

theorem flatMap_ops_event (p : ParticipantId) (es : List SyncerEvent) :
    (es.map Act.event).flatMap (Act.ops p) = [] := by
  induction es with
  | nil => rfl
  | cons e es ih => exact ih

theorem ops_drain {s : BasicSyncer τ} {room : RoomId} (p : ParticipantId)
    (h : s.room = some room) :
    s.drainTransportEvents.2.flatMap (Act.ops p) = opsAbout p s.polled.events := by
  rw [drain_some h]
  simp only [List.flatMap_append, flatMap_ops_event, List.nil_append, List.flatMap_singleton,
    Act.ops]

theorem ops_enter (p : ParticipantId) (s : BasicSyncer τ) (room : RoomId) (q : ParticipantId) :
    (s.enterRoom room q).2.flatMap (Act.ops p) = (PresenceOp.join q).about p := by
  simp only [enterRoom, List.flatMap_cons, flatMap_ops_event, Act.ops, List.nil_append,
    List.append_nil]

theorem drain_presence (p : ParticipantId) (s : BasicSyncer τ) :
    Runs Presence.step (s.statusOf p) (s.drainTransportEvents.2.flatMap (Act.ops p))
      ((returned s.drainTransportEvents.2).flatMap (SyncerEvent.about p))
      (s.drainTransportEvents.1.statusOf p) := by
  cases h : s.room with
  | none => rw [drain_none h]; exact .nil
  | some room =>
    rw [ops_drain p h, returned_drain h, drain_some h]
    exact TransportInbox.processEvents_runs room p s.polled.events s.polled.failureEmitted
      s.participants

theorem enter_presence (p : ParticipantId) (s : BasicSyncer τ) (room : RoomId)
    (q : ParticipantId) :
    Runs Presence.step (s.statusOf p) ((s.enterRoom room q).2.flatMap (Act.ops p))
      ((returned (s.enterRoom room q).2).flatMap (SyncerEvent.about p))
      ((s.enterRoom room q).1.statusOf p) := by
  have hruns := (PresenceOp.join q).apply_runs s.inbox.failureEmitted s.participants p
  have hself : SyncerEvent.about p (.selfJoined room q) = [] := rfl
  rw [ops_enter, returned_enter, List.flatMap_append, List.flatMap_singleton, hself,
    List.append_nil]
  exact hruns

theorem prim_presence (p : ParticipantId) {s s' : BasicSyncer τ} {a : Prim τ} {o : List Act}
    (ha : ∀ transport, a ≠ .rebind transport) (h : prim s a = some (s', o)) :
    Runs Presence.step (s.statusOf p) (o.flatMap (Act.ops p)) (o.flatMap (Act.reports p))
      (s'.statusOf p) := by
  cases a with
  | drain =>
    have hdrain := s.drain_presence p
    rwa [show s.drainTransportEvents = (s', o) from Option.some.inj h,
      ← flatMap_reports] at hdrain
  | limit streamKind now =>
    obtain ⟨⟨l, rfl⟩, rfl | rfl⟩ := limit_cases h
    · exact .nil
    · exact .nil
  | enter room q =>
    cases h
    rw [flatMap_reports]
    exact s.enter_presence p room q
  | send m =>
    obtain ⟨-, rfl, rfl⟩ := send_cases h
    exact .nil
  | push ev => cases h; exact .nil
  | rebind transport => exact absurd rfl (ha transport)

omit [Transport τ] [UuidCrate] in
theorem Call.rebind_of_makes {call : Call τ} {transport : τ} (h : call.Makes (.rebind transport)) :
    call = .rebindTransport transport := by
  cases call with
  | handle now request => exact h.elim
  | pollOnly => cases h
  | pushTransportEvent ev => cases h
  | rebindTransport t => cases h; rfl

theorem departures_once_iff {me : ParticipantId} {transport : τ} {limiter : RateLimiter}
    {s' : BasicSyncer τ} {cs : List (Call τ)} {acts : List Act}
    (h : Runs calls (withRateLimiter me transport limiter) cs acts s')
    (hcs : ∀ t, .rebindTransport t ∉ cs) :
    (∀ p, Presence.Once ((returned acts).flatMap (SyncerEvent.about p))) ↔
      ∀ p, ¬ Presence.Late (acts.flatMap (Act.ops p)) := by
  obtain ⟨ps, hps, hmade⟩ := calls_expand h
  have hkeep : ∀ a ∈ ps, ∀ t, a ≠ .rebind t := by
    rintro a ha t rfl
    obtain ⟨call, hcall, hmakes⟩ := hmade _ ha
    rw [Call.rebind_of_makes hmakes] at hcall
    exact hcs t hcall
  refine forall_congr' fun p => ?_
  have hruns : Runs Presence.step Presence.fresh (acts.flatMap (Act.ops p))
      (acts.flatMap (Act.reports p)) (s'.statusOf p) :=
    hps.simulates (fun _ _ _ _ ha hstep => prim_presence p ha hstep) hkeep
  rw [← flatMap_reports]
  exact Presence.once_iff hruns

end Departures

theorem departures_once_iff_join_and_fail :
    let _ := hyphenated
    let _ := JsonText.serdeText
    ∃ s acts, Runs calls aliceSyncer joinAndFail acts s ∧
      ((∀ p, Presence.Once ((returned acts).flatMap (SyncerEvent.about p))) ↔
        ∀ p, ¬ Presence.Late (acts.flatMap (Act.ops p))) := by
  intro _ _
  have hrun : (run calls aliceSyncer joinAndFail).isSome = true := by decide +kernel
  obtain ⟨⟨s, acts⟩, hr⟩ := Option.isSome_iff_exists.mp hrun
  exact ⟨s, acts, run_sound hr, departures_once_iff (run_sound hr) (by simp [joinAndFail])⟩

/-- A join, a control leave, and then a failure of the same participant. -/
theorem leave_then_failure_reported_twice :
    let _ := hyphenated
    let _ := JsonText.serdeText
    ∃ s acts, Runs calls aliceSyncer
        [.handle 0 (.join lobby alice), .pushTransportEvent bobJoins,
          .pushTransportEvent bobLeaves, .pushTransportEvent (.failure bob), .pollOnly] acts s ∧
      returned acts = [.peerJoined alice, .selfJoined lobby alice, .peerJoined bob,
        .peerLeft bob, .peerLeft bob] ∧
      ¬ Presence.Once ((returned acts).flatMap (SyncerEvent.about bob)) := by
  intro _ _
  have hrun : (run calls aliceSyncer [.handle 0 (.join lobby alice), .pushTransportEvent bobJoins,
      .pushTransportEvent bobLeaves, .pushTransportEvent (.failure bob), .pollOnly]).map
      (fun r => returned r.2) = some [.peerJoined alice, .selfJoined lobby alice, .peerJoined bob,
        .peerLeft bob, .peerLeft bob] := by decide +kernel
  obtain ⟨⟨s, acts⟩, hr, hacts⟩ := Option.map_eq_some_iff.mp hrun
  simp only at hacts
  refine ⟨s, acts, run_sound hr, hacts, ?_⟩
  rw [hacts]
  unfold Presence.Once
  decide

end BasicSyncer

end Syncer
end Bakopa

import Bakopa.Syncer.Reports

/-!
# Bakopa.Syncer.Silence

What a caller still hears of a participant that has left.

The inbox delivers a pose, a chat or a voice frame whoever its sender is, and asks the table
nothing. So what is heard after a departure is what the transport still brings: `quiet_iff` says
that a run is quiet exactly when no content of a participant comes in while it is out of the
table, except before its first join or failure.
-/

namespace Bakopa
namespace Syncer

open Lib Lib.Machine

/-- No pose, chat or voice of `p` is delivered when the last report about `p` is `PeerLeft`. -/
def Quiet (p : ParticipantId) (es : List SyncerEvent) : Prop :=
  Throughout (fun pre e => e.contentFrom = some p →
    (pre.flatMap (SyncerEvent.about p)).getLast? ≠ some .left) es

/-- What `Quiet` asks of an event after the reports `rs`. -/
def Heard (p : ParticipantId) (rs : List Presence.Report) (e : SyncerEvent) : Prop :=
  e.contentFrom = some p → rs.getLast? ≠ some .left

section Silence

variable [UuidCrate] [SerdeJson]

/-- The inbox, after the operations `ops` on `p`, holds no content of `p` that comes up when `p` is
not registered, unless `p` has neither joined nor failed by then. -/
def Welcome (p : ParticipantId) (room : RoomId) (seen : Finset ParticipantId)
    (t : ParticipantTable) (ops : List Presence.Op) (evs : List TransportEvent) : Prop :=
  Throughout (fun pre ev => ev.contentFrom = some p →
    p ∈ (TransportInbox.processEvents room seen t pre).participants.participants ∨
    (.join ∉ ops ++ opsAbout p pre ∧ .fail ∉ ops ++ opsAbout p pre)) evs

/-- `Welcome` for the inbox that a drain takes in. -/
def Act.Welcome (p : ParticipantId) (ops : List Presence.Op) : Act → Prop
  | .drained room inbox t => Syncer.Welcome p room inbox.failureEmitted t ops inbox.events
  | _ => True

namespace TransportInbox

variable {room : RoomId} {seen : Finset ParticipantId} {t : ParticipantTable}
  {ev : TransportEvent} {p : ParticipantId} {ops : List Presence.Op} {rs : List Presence.Report}

omit [UuidCrate] [SerdeJson] in
theorem apply_contentFrom (seen : Finset ParticipantId) (t : ParticipantTable) (op : PresenceOp) :
    ∀ e ∈ (op.apply seen t).out, e.contentFrom = none := by
  intro e he
  cases op with
  | join q =>
    simp only [PresenceOp.apply, ParticipantTable.events_applyJoin] at he
    split at he
    · simp only [List.mem_cons, List.not_mem_nil, or_false] at he
      rcases he with rfl | rfl <;> rfl
    · rw [List.mem_singleton.mp he]
      rfl
  | leave q =>
    simp only [PresenceOp.apply, ParticipantTable.events_applyLeave] at he
    split at he
    · rw [List.mem_singleton.mp he]
      rfl
    · cases he
  | fail q =>
    simp only [PresenceOp.apply] at he
    split at he
    · cases he
    · rw [List.mem_singleton.mp he]
      rfl

theorem processEvent_quiet (room : RoomId) (seen : Finset ParticipantId) (t : ParticipantTable)
    (ev : TransportEvent) :
    Throughout (fun pre e => Heard p (rs ++ pre.flatMap (SyncerEvent.about p)) e)
        (processEvent room seen t ev).out ↔
      (ev.contentFrom = some p → rs.getLast? ≠ some .left) := by
  cases h : ev.presence with
  | some op =>
    rw [processEvent_presence h, contentFrom_of_presence h]
    refine ⟨fun _ hfrom => (Option.some_ne_none p hfrom.symm).elim, fun _ => ?_⟩
    refine .of_forall fun pre e he hfrom => ?_
    rw [apply_contentFrom seen t op e he] at hfrom
    cases hfrom
  | none =>
    obtain ⟨e, -, hfrom, heq⟩ := processEvent_message room seen t h
    rw [heq, Throughout.singleton_iff, Heard, hfrom]
    simp

theorem processEvents_quiet (evs : List TransportEvent)
    (htold : Presence.Told (status seen t p) ops rs) :
    Throughout (fun pre e => Heard p (rs ++ pre.flatMap (SyncerEvent.about p)) e)
        (processEvents room seen t evs).out ↔
      Welcome p room seen t ops evs := by
  induction evs generalizing seen t ops rs with
  | nil => exact ⟨fun _ => .nil, fun _ => .nil⟩
  | cons ev evs ih =>
    have hfirst : (ev.contentFrom = some p → rs.getLast? ≠ some .left) ↔
        (ev.contentFrom = some p → p ∈ t.participants ∨ (.join ∉ ops ∧ .fail ∉ ops)) := by
      refine imp_congr_right fun _ => ?_
      rw [ne_eq, htold.last_left_iff]
      simp only [status, decide_eq_false_iff_not]
      tauto
    have hrest := ih (htold.run (processEvent_runs room seen t ev p))
    simp only [processEvents, Throughout.append_iff, processEvent_quiet, hfirst, Welcome,
      Throughout.cons_iff, List.flatMap_append, ← List.append_assoc, hrest]
    simp only [opsAbout, List.flatMap_nil, List.append_nil, List.flatMap_cons,
      ← List.append_assoc]

end TransportInbox

namespace BasicSyncer

variable {τ : Type} [Transport τ] {p : ParticipantId} {ops : List Presence.Op}
  {rs : List Presence.Report}

theorem prim_told {s s' : BasicSyncer τ} {a : Prim τ} {o : List Act}
    (h : prim s a = some (s', o)) (htold : Presence.Told (s.statusOf p) ops rs) :
    Presence.Told (s'.statusOf p) (ops ++ o.flatMap (Act.ops p))
      (rs ++ o.flatMap (Act.reports p)) := by
  by_cases ha : ∃ transport, a = .rebind transport
  · obtain ⟨transport, rfl⟩ := ha
    cases h
    -- the new inbox has counted no failure
    have hstatus : (s.rebindTransport transport).statusOf p =
        ⟨(s.statusOf p).registered, false⟩ := rfl
    rw [hstatus]
    simpa only [List.flatMap_nil, List.append_nil] using htold.forget
  · exact htold.run (prim_presence p (fun transport he => ha ⟨transport, he⟩) h)

theorem prim_quiet {s s' : BasicSyncer τ} {a : Prim τ} {o : List Act}
    (h : prim s a = some (s', o)) (htold : Presence.Told (s.statusOf p) ops rs) :
    Throughout (fun pre e => Heard p (rs ++ pre.flatMap (SyncerEvent.about p)) e) (returned o) ↔
      Throughout (fun pre x => x.Welcome p (ops ++ pre.flatMap (Act.ops p))) o := by
  have hsilent : (∀ e ∈ returned o, e.contentFrom = none) →
      (∀ room inbox t, .drained room inbox t ∉ o) →
      (Throughout (fun pre e => Heard p (rs ++ pre.flatMap (SyncerEvent.about p)) e)
          (returned o) ↔
        Throughout (fun pre x => x.Welcome p (ops ++ pre.flatMap (Act.ops p))) o) := by
    intro hcontent hmark
    refine iff_of_true (.of_forall fun pre e he hfrom => ?_) (.of_forall fun pre x hx => ?_)
    · rw [hcontent e he] at hfrom
      cases hfrom
    · cases x with
      | drained room inbox t => exact absurd hx (hmark room inbox t)
      | _ => trivial
  cases a with
  | drain =>
    have h : s.drainTransportEvents = (s', o) := Option.some.inj h
    cases hroom : s.room with
    | none =>
      rw [drain_none hroom] at h
      cases h
      exact iff_of_true .nil .nil
    | some room =>
      rw [drain_some hroom] at h
      cases h
      have hmarks : Throughout (fun pre x => Act.Welcome p (ops ++ pre.flatMap (Act.ops p)) x)
          ((TransportInbox.processEvents room s.polled.failureEmitted s.participants
            s.polled.events).out.map Act.event) := by
        refine .of_forall fun pre x hx => ?_
        obtain ⟨e, -, rfl⟩ := List.mem_map.mp hx
        trivial
      simp only [returned_append, returned_map_event, returned_drained, returned_nil,
        List.append_nil, Throughout.append_iff, Throughout.singleton_iff, hmarks, true_and,
        flatMap_ops_event]
      exact TransportInbox.processEvents_quiet s.polled.events htold
  | limit streamKind now =>
    obtain ⟨-, rfl | rfl⟩ := limit_cases h
    · exact hsilent (by simp) (by simp)
    · exact hsilent (by simp [SyncerEvent.contentFrom]) (by simp)
  | enter room q =>
    have ho : (s.enterRoom room q).2 = o := congrArg Prod.snd (Option.some.inj h)
    refine hsilent (fun e he => ?_) (by simp [← ho, enterRoom])
    rw [← ho, returned_enter, List.mem_append, List.mem_singleton] at he
    rcases he with he | rfl
    · exact TransportInbox.apply_contentFrom s.inbox.failureEmitted s.participants (.join q) e he
    · rfl
  | send m =>
    obtain ⟨-, -, rfl⟩ := send_cases h
    exact hsilent (by simp) (by simp)
  | push ev => cases h; exact hsilent (by simp) (by simp)
  | rebind transport => cases h; exact hsilent (by simp) (by simp)

theorem runs_quiet {s s' : BasicSyncer τ} {ps : List (Prim τ)} {acts : List Act}
    (h : Runs prim s ps acts s') (htold : Presence.Told (s.statusOf p) ops rs) :
    Throughout (fun pre e => Heard p (rs ++ pre.flatMap (SyncerEvent.about p)) e)
        (returned acts) ↔
      Throughout (fun pre x => x.Welcome p (ops ++ pre.flatMap (Act.ops p))) acts := by
  induction h generalizing ops rs with
  | nil => exact iff_of_true .nil .nil
  | @cons s s₁ s' a as o os ha _ ih =>
    have hrest := ih (prim_told ha htold)
    simp only [returned_append, Throughout.append_iff, prim_quiet ha htold,
      List.flatMap_append, ← flatMap_reports, ← List.append_assoc, hrest]

theorem quiet_iff {me : ParticipantId} {transport : τ} {limiter : RateLimiter}
    {s' : BasicSyncer τ} {cs : List (Call τ)} {acts : List Act}
    (h : Runs calls (withRateLimiter me transport limiter) cs acts s') (p : ParticipantId) :
    Quiet p (returned acts) ↔
      Throughout (fun pre x => x.Welcome p (pre.flatMap (Act.ops p))) acts := by
  obtain ⟨ps, hps, -⟩ := calls_expand h
  have hfresh : (withRateLimiter me transport limiter).statusOf p = Presence.fresh := rfl
  exact runs_quiet hps (hfresh ▸ Presence.Told.fresh)

end BasicSyncer

end Silence

namespace BasicSyncer

def lateChat : ChatMessage := ⟨1, 0, 1, "bob", "hello"⟩

def bobSpeaks [SerdeJson] : TransportEvent :=
  .received bob (.bytes (SerdeJson.toVec ⟨1, .chat, lateChat.toValue⟩))

theorem quiet_iff_chat_and_fail :
    let _ := hyphenated
    let _ := JsonText.serdeText
    ∃ s acts, Runs calls aliceSyncer
        [.handle 0 (.join lobby alice), .pushTransportEvent bobJoins,
          .pushTransportEvent bobSpeaks, .pushTransportEvent (.failure bob), .pollOnly] acts s ∧
      returned acts = [.peerJoined alice, .selfJoined lobby alice, .peerJoined bob,
        .chatReceived lateChat ⟨lobby, bob, .chat⟩, .peerLeft bob] ∧
      (Quiet bob (returned acts) ↔
        Throughout (fun pre x => x.Welcome bob (pre.flatMap (Act.ops bob))) acts) := by
  intro _ _
  have hrun : (run calls aliceSyncer [.handle 0 (.join lobby alice), .pushTransportEvent bobJoins,
      .pushTransportEvent bobSpeaks, .pushTransportEvent (.failure bob), .pollOnly]).map
      (fun r => returned r.2) = some [.peerJoined alice, .selfJoined lobby alice, .peerJoined bob,
        .chatReceived lateChat ⟨lobby, bob, .chat⟩, .peerLeft bob] := by decide +kernel
  obtain ⟨⟨s, acts⟩, hr, hacts⟩ := Option.map_eq_some_iff.mp hrun
  exact ⟨s, acts, run_sound hr, hacts, quiet_iff (run_sound hr) bob⟩

/-- What `bob` said before his connection failed, and the transport brings only then. -/
theorem late_chat_delivered :
    let _ := hyphenated
    let _ := JsonText.serdeText
    ∃ s acts, Runs calls aliceSyncer
        [.handle 0 (.join lobby alice), .pushTransportEvent bobJoins,
          .pushTransportEvent (.failure bob), .pushTransportEvent bobSpeaks, .pollOnly] acts s ∧
      returned acts = [.peerJoined alice, .selfJoined lobby alice, .peerJoined bob, .peerLeft bob,
        .chatReceived lateChat ⟨lobby, bob, .chat⟩] ∧
      ¬ Quiet bob (returned acts) := by
  intro _ _
  have hrun : (run calls aliceSyncer [.handle 0 (.join lobby alice), .pushTransportEvent bobJoins,
      .pushTransportEvent (.failure bob), .pushTransportEvent bobSpeaks, .pollOnly]).map
      (fun r => returned r.2) = some [.peerJoined alice, .selfJoined lobby alice, .peerJoined bob,
        .peerLeft bob, .chatReceived lateChat ⟨lobby, bob, .chat⟩] := by decide +kernel
  obtain ⟨⟨s, acts⟩, hr, hacts⟩ := Option.map_eq_some_iff.mp hrun
  simp only at hacts
  refine ⟨s, acts, run_sound hr, hacts, fun hquiet => ?_⟩
  rw [hacts] at hquiet
  exact hquiet [.peerJoined alice, .selfJoined lobby alice, .peerJoined bob, .peerLeft bob]
    (.chatReceived lateChat ⟨lobby, bob, .chat⟩) [] rfl rfl (by decide)

end BasicSyncer

end Syncer
end Bakopa

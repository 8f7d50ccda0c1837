import Bakopa.Syncer.ParticipantTable
import Bakopa.Syncer.Presence

/-!
# Bakopa.Syncer.TransportInbox

`TransportInbox` of `syncer/src/transport_inbox.rs`: transport events become `SyncerEvent`s, and
control messages and failures change the participant table.

What an event does to the table is its `PresenceOp` (`processEvent_presence`); an event without
one only passes a message on (`processEvent_message`). For a single participant the operations
are those of the abstract `Presence` machine (`processEvents_runs`).
-/

namespace Bakopa
namespace Syncer

open Lib Lib.Machine

structure TransportInbox where
  events : List TransportEvent
  failureEmitted : Finset ParticipantId

def SyncMessage.streamKindOf : SyncMessage → StreamKind
  | .pose _ => .pose
  | .chat _ => .chat
  | .control msg => msg.kindStream
  | .signaling msg => msg.kindStream

def controlOrSignalingError : SyncerEvent :=
  .error (.invalidPayload (.unknownKind "control_or_signaling_in_data_channel"))

/-- The loop's variables: the peers whose failure was seen, the table, and the events so far. -/
structure Inbound where
  seen : Finset ParticipantId
  participants : ParticipantTable
  out : List SyncerEvent

namespace TransportInbox

def new : TransportInbox := ⟨[], ∅⟩

def push (inbox : TransportInbox) (ev : TransportEvent) : TransportInbox :=
  { inbox with events := inbox.events ++ [ev] }

variable [UuidCrate]

def processMessage (room : RoomId) (participants : ParticipantTable) (fromId : ParticipantId)
    (msg : SyncMessage) : ParticipantTable × List SyncerEvent :=
  let ctx : TracingContext := ⟨room, fromId, msg.streamKindOf⟩
  match msg with
  | .pose pose => (participants, [.poseReceived fromId pose ctx])
  | .chat chat => (participants, [.chatReceived chat ctx])
  | .control control => participants.applyPendingPeerEvent (.fromControl control)
  | .signaling _ => (participants, [controlOrSignalingError])

variable [SerdeJson]

/-- The body of the loop, with the events of this pass only. -/
def processEvent (room : RoomId) (seen : Finset ParticipantId) (participants : ParticipantTable) :
    TransportEvent → Inbound
  | .received fromId (.audioFrame frame) =>
    ⟨seen, participants, [.voiceFrameReceived fromId frame ⟨room, fromId, .voice⟩]⟩
  | .received fromId (.bytes data) =>
    match (TransportPayload.bytes data).parseSyncMessage with
    | .ok msg =>
      let (participants, out) := processMessage room participants fromId msg
      ⟨seen, participants, out⟩
    | .error e => ⟨seen, participants, [.error (.invalidPayload e)]⟩
  | .failure peer =>
    if peer ∈ seen then ⟨seen, participants, []⟩
    else
      let (participants, evs) := participants.applyLeave peer
      -- a peer that is not registered is reported all the same
      ⟨insert peer seen, participants, if evs = [] then [.peerLeft peer] else evs⟩

def processEvents (room : RoomId) (seen : Finset ParticipantId) (participants : ParticipantTable) :
    List TransportEvent → Inbound
  | [] => ⟨seen, participants, []⟩
  | ev :: evs =>
    let first := processEvent room seen participants ev
    let rest := processEvents room first.seen first.participants evs
    ⟨rest.seen, rest.participants, first.out ++ rest.out⟩

def drainIntoEvents (inbox : TransportInbox) (room : RoomId) (participants : ParticipantTable) :
    TransportInbox × ParticipantTable × List SyncerEvent :=
  let inbound := processEvents room inbox.failureEmitted participants inbox.events
  (⟨[], inbound.seen⟩, inbound.participants, inbound.out)

end TransportInbox

/-- What a request or a transport event does to the participant table. -/
inductive PresenceOp where
  | join (p : ParticipantId)
  | leave (p : ParticipantId)
  | fail (p : ParticipantId)
deriving DecidableEq

namespace PresenceOp

def apply (seen : Finset ParticipantId) (t : ParticipantTable) : PresenceOp → Inbound
  | .join p => ⟨seen, (t.applyJoin p).1, (t.applyJoin p).2⟩
  | .leave p => ⟨seen, (t.applyLeave p).1, (t.applyLeave p).2⟩
  | .fail p =>
    if p ∈ seen then ⟨seen, t, []⟩ else ⟨insert p seen, (t.applyLeave p).1, [.peerLeft p]⟩

/-- The part of an operation that concerns `p`. -/
def about (p : ParticipantId) : PresenceOp → List Presence.Op
  | .join q => if q = p then [.join] else []
  | .leave q => if q = p then [.leave] else []
  | .fail q => if q = p then [.fail] else []

end PresenceOp

/-- The part of an event that concerns the presence of `p`. -/
def SyncerEvent.about (p : ParticipantId) : SyncerEvent → List Presence.Report
  | .peerJoined q => if q = p then [.joined] else []
  | .peerLeft q => if q = p then [.left] else []
  | _ => []

/-- An event that is not a report about a participant's presence. -/
def SyncerEvent.IsMessage : SyncerEvent → Prop
  | .peerJoined _ | .peerLeft _ => False
  | _ => True

/-- Whose pose, chat or voice the event delivers. -/
def SyncerEvent.contentFrom : SyncerEvent → Option ParticipantId
  | .poseReceived _ _ ctx | .chatReceived _ ctx | .voiceFrameReceived _ _ ctx =>
    some ctx.participantId
  | _ => none

theorem SyncerEvent.IsMessage.about {e : SyncerEvent} (h : e.IsMessage) (p : ParticipantId) :
    e.about p = [] := by
  cases e <;> first | exact h.elim | rfl

theorem SyncerEvent.IsMessage.track {e : SyncerEvent} (h : e.IsMessage)
    (l : List ParticipantId) : ParticipantTable.track l e = l := by
  cases e <;> first | exact h.elim | rfl

def status (seen : Finset ParticipantId) (t : ParticipantTable) (p : ParticipantId) :
    Presence.Status :=
  ⟨p ∈ t.participants, p ∈ seen⟩

section Ops

variable {seen : Finset ParticipantId} {t : ParticipantTable} {op : PresenceOp}

theorem PresenceOp.apply_track :
    (op.apply seen t).out.foldl ParticipantTable.track t.participants =
      (op.apply seen t).participants.participants := by
  cases op with
  | join p => exact ParticipantTable.track_applyJoin
  | leave p => exact ParticipantTable.track_applyLeave
  | fail p =>
    simp only [PresenceOp.apply]
    split
    · rfl
    · rw [ParticipantTable.participants_applyLeave]
      rfl

/-- For each participant, an operation is a step of the abstract machine, or none. -/
theorem PresenceOp.apply_runs (seen : Finset ParticipantId) (t : ParticipantTable)
    (op : PresenceOp) (p : ParticipantId) :
    Runs Presence.step (status seen t p) (op.about p)
      ((op.apply seen t).out.flatMap (SyncerEvent.about p))
      (status (op.apply seen t).seen (op.apply seen t).participants p) := by
  cases op with
  | join q =>
    by_cases h : q = p
    · subst h
      have hstep : Presence.step (status seen t q) .join =
          some (status seen (t.applyJoin q).1 q,
            (t.applyJoin q).2.flatMap (SyncerEvent.about q)) := by
        simp only [status, Presence.step, ParticipantTable.mem_applyJoin, true_or, decide_true,
          ParticipantTable.events_applyJoin, decide_eq_true_iff]
        split <;> simp [SyncerEvent.about]
      simpa [PresenceOp.about, PresenceOp.apply] using Runs.single hstep
    · have hout : (t.applyJoin q).2.flatMap (SyncerEvent.about p) = [] := by
        rw [ParticipantTable.events_applyJoin]
        split <;> simp [SyncerEvent.about, h]
      have hp : ¬ p = q := fun hp => h hp.symm
      simp only [PresenceOp.about, PresenceOp.apply, if_neg h, hout, status,
        ParticipantTable.mem_applyJoin, hp, false_or]
      exact .nil
  | leave q =>
    by_cases h : q = p
    · subst h
      have hstep : Presence.step (status seen t q) .leave =
          some (status seen (t.applyLeave q).1 q,
            (t.applyLeave q).2.flatMap (SyncerEvent.about q)) := by
        simp only [status, Presence.step, ParticipantTable.mem_applyLeave, ne_eq, not_true,
          false_and, decide_false, ParticipantTable.events_applyLeave, decide_eq_true_iff]
        split <;> simp [SyncerEvent.about]
      simpa [PresenceOp.about, PresenceOp.apply] using Runs.single hstep
    · have hout : (t.applyLeave q).2.flatMap (SyncerEvent.about p) = [] := by
        rw [ParticipantTable.events_applyLeave]
        split <;> simp [SyncerEvent.about, h]
      have hp : ¬ p = q := fun hp => h hp.symm
      simp only [PresenceOp.about, PresenceOp.apply, if_neg h, hout, status,
        ParticipantTable.mem_applyLeave, ne_eq, hp, not_false_eq_true, true_and]
      exact .nil
  | fail q =>
    by_cases hseen : q ∈ seen
    · by_cases h : q = p
      · subst h
        have hstep : Presence.step (status seen t q) .fail = some (status seen t q, []) := by
          simp [status, Presence.step, hseen]
        simpa [PresenceOp.about, PresenceOp.apply, hseen] using Runs.single hstep
      · simp only [PresenceOp.about, PresenceOp.apply, if_pos hseen, if_neg h]
        exact .nil
    · by_cases h : q = p
      · subst h
        have hstep : Presence.step (status seen t q) .fail =
            some (status (insert q seen) (t.applyLeave q).1 q, [.left]) := by
          simp [status, Presence.step, hseen, ParticipantTable.mem_applyLeave]
        simpa [PresenceOp.about, PresenceOp.apply, hseen, SyncerEvent.about] using
          Runs.single hstep
      · have hp : ¬ p = q := fun hp => h hp.symm
        simp only [PresenceOp.about, PresenceOp.apply, if_neg hseen, if_neg h, status,
          ParticipantTable.mem_applyLeave, List.flatMap_singleton, SyncerEvent.about, ne_eq, hp,
          not_false_eq_true, true_and, Finset.mem_insert, false_or]
        exact .nil

end Ops

variable [UuidCrate] [SerdeJson]

def TransportEvent.presence : TransportEvent → Option PresenceOp
  | .received _ payload =>
    match payload.parseSyncMessage with
    | .ok (.control (.join c)) => (ParticipantId.fromStr c.participantId).map .join
    | .ok (.control (.leave c)) => (ParticipantId.fromStr c.participantId).map .leave
    | _ => none
  | .failure peer => some (.fail peer)

/-- Whose pose, chat or voice comes in. -/
def TransportEvent.contentFrom : TransportEvent → Option ParticipantId
  | .received sender (.audioFrame _) => some sender
  | .received sender (.bytes data) =>
    match (TransportPayload.bytes data).parseSyncMessage with
    | .ok (.pose _) | .ok (.chat _) => some sender
    | _ => none
  | .failure _ => none

def opsAbout (p : ParticipantId) (evs : List TransportEvent) : List Presence.Op :=
  evs.flatMap fun ev => ev.presence.toList.flatMap (PresenceOp.about p)

namespace TransportInbox

variable {room : RoomId} {seen : Finset ParticipantId} {t : ParticipantTable}
  {ev : TransportEvent} {evs : List TransportEvent} {op : PresenceOp}

theorem processEvent_presence (h : ev.presence = some op) :
    processEvent room seen t ev = op.apply seen t := by
  cases ev with
  | received fromId payload =>
    cases payload with
    | audioFrame frame => cases h
    | bytes data =>
      simp only [TransportEvent.presence] at h
      split at h
      · rename_i c hmsg
        rw [Option.map_eq_some_iff] at h
        obtain ⟨p, hp, rfl⟩ := h
        simp only [processEvent, hmsg, processMessage, ParticipantTable.applyPendingPeerEvent,
          PendingPeerEvent.fromControl, hp, PresenceOp.apply]
      · rename_i c hmsg
        rw [Option.map_eq_some_iff] at h
        obtain ⟨p, hp, rfl⟩ := h
        simp only [processEvent, hmsg, processMessage, ParticipantTable.applyPendingPeerEvent,
          PendingPeerEvent.fromControl, hp, PresenceOp.apply]
      · cases h
  | failure peer =>
    cases h
    simp only [processEvent, PresenceOp.apply]
    split
    · rfl
    · rw [ParticipantTable.events_applyLeave]
      split <;> rfl

theorem processEvent_message (room : RoomId) (seen : Finset ParticipantId) (t : ParticipantTable)
    (h : ev.presence = none) :
    ∃ e, e.IsMessage ∧ e.contentFrom = ev.contentFrom ∧
      processEvent room seen t ev = ⟨seen, t, [e]⟩ := by
  cases ev with
  | received fromId payload =>
    cases payload with
    | audioFrame frame =>
      exact ⟨.voiceFrameReceived fromId frame ⟨room, fromId, .voice⟩, trivial, rfl, rfl⟩
    | bytes data =>
      simp only [TransportEvent.presence] at h
      simp only [TransportEvent.contentFrom]
      cases hmsg : (TransportPayload.bytes data).parseSyncMessage with
      | error e =>
        refine ⟨.error (.invalidPayload e), trivial, rfl, ?_⟩
        simp only [processEvent, hmsg]
      | ok msg =>
        cases msg with
        | pose pose =>
          refine ⟨.poseReceived fromId pose ⟨room, fromId, .pose⟩, trivial, rfl, ?_⟩
          simp only [processEvent, hmsg, processMessage, SyncMessage.streamKindOf]
        | chat chat =>
          refine ⟨.chatReceived chat ⟨room, fromId, .chat⟩, trivial, rfl, ?_⟩
          simp only [processEvent, hmsg, processMessage, SyncMessage.streamKindOf]
        | signaling msg =>
          refine ⟨controlOrSignalingError, trivial, rfl, ?_⟩
          simp only [processEvent, hmsg, processMessage]
        | control msg =>
          refine ⟨.error (.invalidParticipantId msg.payload.participantId), trivial, rfl, ?_⟩
          cases msg with
          | join c =>
            simp only [hmsg, Option.map_eq_none_iff] at h
            simp only [processEvent, hmsg, processMessage, PendingPeerEvent.fromControl,
              ParticipantTable.applyPendingPeerEvent, h, ControlMessage.payload]
          | leave c =>
            simp only [hmsg, Option.map_eq_none_iff] at h
            simp only [processEvent, hmsg, processMessage, PendingPeerEvent.fromControl,
              ParticipantTable.applyPendingPeerEvent, h, ControlMessage.payload]
  | failure peer => cases h

theorem contentFrom_of_presence (h : ev.presence = some op) : ev.contentFrom = none := by
  cases ev with
  | received fromId payload =>
    cases payload with
    | audioFrame frame => cases h
    | bytes data =>
      simp only [TransportEvent.presence] at h
      simp only [TransportEvent.contentFrom]
      split at h
      · rename_i c hmsg; rw [hmsg]
      · rename_i c hmsg; rw [hmsg]
      · cases h
  | failure peer => rfl

theorem processEvent_track (room : RoomId) (seen : Finset ParticipantId) (t : ParticipantTable)
    (ev : TransportEvent) :
    (processEvent room seen t ev).out.foldl ParticipantTable.track t.participants =
      (processEvent room seen t ev).participants.participants := by
  cases h : ev.presence with
  | some op => rw [processEvent_presence h]; exact PresenceOp.apply_track
  | none =>
    obtain ⟨e, he, -, heq⟩ := processEvent_message room seen t h
    rw [heq]
    exact he.track _

theorem processEvent_runs (room : RoomId) (seen : Finset ParticipantId) (t : ParticipantTable)
    (ev : TransportEvent) (p : ParticipantId) :
    Runs Presence.step (status seen t p) (ev.presence.toList.flatMap (PresenceOp.about p))
      ((processEvent room seen t ev).out.flatMap (SyncerEvent.about p))
      (status (processEvent room seen t ev).seen (processEvent room seen t ev).participants p) := by
  cases h : ev.presence with
  | some op =>
    rw [processEvent_presence h]
    simpa using PresenceOp.apply_runs seen t op p
  | none =>
    obtain ⟨e, he, -, heq⟩ := processEvent_message room seen t h
    rw [heq]
    simpa [he.about] using Runs.nil

theorem processEvents_track (evs : List TransportEvent) (seen : Finset ParticipantId)
    (t : ParticipantTable) :
    (processEvents room seen t evs).out.foldl ParticipantTable.track t.participants =
      (processEvents room seen t evs).participants.participants := by
  induction evs generalizing seen t with
  | nil => rfl
  | cons ev evs ih =>
    simp only [processEvents, List.foldl_append]
    rw [processEvent_track]
    exact ih _ _

theorem processEvents_runs (room : RoomId) (p : ParticipantId) (evs : List TransportEvent)
    (seen : Finset ParticipantId) (t : ParticipantTable) :
    Runs Presence.step (status seen t p) (opsAbout p evs)
      ((processEvents room seen t evs).out.flatMap (SyncerEvent.about p))
      (status (processEvents room seen t evs).seen (processEvents room seen t evs).participants
        p) := by
  induction evs generalizing seen t with
  | nil => exact .nil
  | cons ev evs ih =>
    simp only [processEvents, List.flatMap_append, opsAbout, List.flatMap_cons]
    exact (processEvent_runs room seen t ev p).trans (ih _ _)

end TransportInbox

end Syncer
end Bakopa

import Bakopa.Syncer.BasicSyncer
import Bakopa.Syncer.WebrtcTransport
import Bakopa.Syncer.Wire

/-!
# Bakopa.Syncer.Delivery

What payloads bring to their receiver (`TransportPayload.content`) and what events report of it
(`SyncerEvent.heard`): a drain reports what it was given, in order (`processEvents_heard`), and a
chat that is routed brings itself when it is valid and fits (`content_chat`).
-/

namespace Bakopa
namespace Syncer

open Lib Lib.Machine

inductive Content where
  | chat (chat : ChatMessage)
  | voice (frame : List UInt8)
deriving DecidableEq

/-- What a payload brings to its receiver. -/
def TransportPayload.content [SerdeJson] : TransportPayload → Option Content
  | .audioFrame frame => some (.voice frame)
  | .bytes data =>
    match (TransportPayload.bytes data).parseSyncMessage with
    | .ok (.chat chat) => some (.chat chat)
    | _ => none

/-- What an event brings from `sender`. -/
def SyncerEvent.heard (sender : ParticipantId) : SyncerEvent → Option Content
  | .chatReceived chat ctx => if ctx.participantId = sender then some (.chat chat) else none
  | .voiceFrameReceived fromId frame _ => if fromId = sender then some (.voice frame) else none
  | _ => none

/-- The messages handed to the transport. -/
def handed (acts : List Act) : List Message :=
  acts.filterMap fun
    | .send m => some m
    | _ => none

@[simp] theorem handed_nil : handed [] = [] := rfl

@[simp] theorem handed_append (acts acts' : List Act) :
    handed (acts ++ acts') = handed acts ++ handed acts' :=
  List.filterMap_append

@[simp] theorem handed_event (e : SyncerEvent) (acts : List Act) :
    handed (.event e :: acts) = handed acts := rfl

@[simp] theorem handed_send (m : Message) (acts : List Act) :
    handed (.send m :: acts) = m :: handed acts := rfl

@[simp] theorem handed_joining (p : ParticipantId) (acts : List Act) :
    handed (.joining p :: acts) = handed acts := rfl

@[simp] theorem handed_drained (room : RoomId) (inbox : TransportInbox) (t : ParticipantTable)
    (acts : List Act) : handed (.drained room inbox t :: acts) = handed acts := rfl

@[simp] theorem handed_map_event (es : List SyncerEvent) : handed (es.map .event) = [] := by
  induction es with
  | nil => rfl
  | cons e es ih => rw [List.map_cons, handed_event, ih]

section Content

variable [UuidCrate] [SerdeJson]

theorem content_of_presence {fromId : ParticipantId} {payload : TransportPayload}
    {op : PresenceOp} (h : (TransportEvent.received fromId payload).presence = some op) :
    payload.content = none := by
  cases payload with
  | audioFrame frame => cases h
  | bytes data =>
    simp only [TransportEvent.presence] at h
    simp only [TransportPayload.content]
    split
    · rename_i chat hchat
      rw [hchat] at h
      cases h
    · rfl

omit [SerdeJson] in
theorem heard_applyPendingPeerEvent (t : ParticipantTable) (event : PendingPeerEvent)
    (sender : ParticipantId) :
    (t.applyPendingPeerEvent event).2.filterMap (SyncerEvent.heard sender) = [] := by
  unfold ParticipantTable.applyPendingPeerEvent
  split
  · rfl
  · split
    · rw [ParticipantTable.events_applyJoin]
      split <;> rfl
    · rw [ParticipantTable.events_applyLeave]
      split <;> rfl

namespace TransportInbox

theorem processEvent_heard (room : RoomId) (seen : Finset ParticipantId) (t : ParticipantTable)
    (sender : ParticipantId) (payload : TransportPayload) :
    (processEvent room seen t (.received sender payload)).out.filterMap
      (SyncerEvent.heard sender) = payload.content.toList := by
  cases payload with
  | audioFrame frame =>
    simp [processEvent, SyncerEvent.heard, TransportPayload.content]
  | bytes data =>
    cases hmsg : (TransportPayload.bytes data).parseSyncMessage with
    | error e =>
      simp [processEvent, hmsg, SyncerEvent.heard, TransportPayload.content]
    | ok msg =>
      cases msg with
      | control msg =>
        simp [processEvent, hmsg, processMessage,
          heard_applyPendingPeerEvent, TransportPayload.content]
      | _ =>
        simp [processEvent, hmsg, processMessage,
          SyncerEvent.heard, controlOrSignalingError, TransportPayload.content]

theorem processEvents_heard (room : RoomId) {sender : ParticipantId} {ms : List BusMessage}
    (h : ∀ m ∈ ms, m.fromId = sender) (seen : Finset ParticipantId) (t : ParticipantTable) :
    (processEvents room seen t (ms.map WebrtcTransport.receivedOf)).out.filterMap
      (SyncerEvent.heard sender) = ms.filterMap (·.payload.content) := by
  induction ms generalizing seen t with
  | nil => rfl
  | cons m ms ih =>
    have hm : WebrtcTransport.receivedOf m = .received sender m.payload := by
      rw [WebrtcTransport.receivedOf, h m List.mem_cons_self]
    have hrest := ih fun m' hm' => h m' (List.mem_cons_of_mem m hm')
    simp only [List.map_cons, processEvents, List.filterMap_append, hm,
      processEvent_heard, hrest, List.filterMap_cons]
    cases m.payload.content <;> rfl

theorem mem_processEvents (room : RoomId) {p q : ParticipantId} {evs : List TransportEvent}
    (h : ∀ ev ∈ evs, ev.presence = none ∨ ev.presence = some (.join p))
    (seen : Finset ParticipantId) (t : ParticipantTable) :
    q ∈ (processEvents room seen t evs).participants.participants ↔
      q ∈ t.participants ∨ q = p ∧ ∃ ev ∈ evs, ev.presence = some (.join p) := by
  induction evs generalizing seen t with
  | nil => simp [processEvents]
  | cons ev evs ih =>
    have hrest := ih fun ev' hev' => h ev' (List.mem_cons_of_mem ev hev')
    simp only [processEvents, hrest]
    rcases h ev List.mem_cons_self with hev | hev
    · obtain ⟨e, -, -, heq⟩ := processEvent_message room seen t hev
      simp [heq, hev]
    · rw [processEvent_presence hev]
      simp only [PresenceOp.apply, ParticipantTable.mem_applyJoin, List.mem_cons,
        exists_eq_or_imp, hev, true_or, and_true]
      tauto

end TransportInbox

end Content

section Chats

variable [SerdeJson]

theorem intoTransportPayload_chat (chat : ChatMessage) :
    (OutboundPayload.chat chat).intoTransportPayload =
      chat.validate.map fun _ => .bytes (SerdeJson.toVec chat.envelope) := by
  simp only [OutboundPayload.intoTransportPayload, SyncMessageEnvelope.fromChat]
  cases chat.validate <;> rfl

theorem valid_of_payload {chat : ChatMessage} {payload : TransportPayload}
    (h : (OutboundPayload.chat chat).intoTransportPayload = .ok payload) :
    chat.validate = .ok () ∧ payload = .bytes (SerdeJson.toVec chat.envelope) := by
  rw [intoTransportPayload_chat] at h
  cases hv : chat.validate with
  | error e => rw [hv] at h; cases h
  | ok u => rw [hv] at h; cases h; exact ⟨rfl, rfl⟩

theorem content_chat [LosslessJson] {chat : ChatMessage} (h : chat.validate = .ok ()) :
    (TransportPayload.bytes (SerdeJson.toVec chat.envelope)).content =
      if chat.envelope.Fits then some (.chat chat) else none := by
  split
  · rename_i hfits
    simp only [TransportPayload.content, ChatMessage.parse_envelope h hfits]
  · rename_i hlarge
    simp only [TransportPayload.content, ChatMessage.parse_large hlarge]

theorem presence_chat [UuidCrate] [LosslessJson] {chat : ChatMessage} (h : chat.validate = .ok ())
    (fromId : ParticipantId) :
    (TransportEvent.received fromId (.bytes (SerdeJson.toVec chat.envelope))).presence = none := by
  by_cases hfits : chat.envelope.Fits
  · simp only [TransportEvent.presence, ChatMessage.parse_envelope h hfits]
  · simp only [TransportEvent.presence, ChatMessage.parse_large hfits]

end Chats

end Syncer
end Bakopa

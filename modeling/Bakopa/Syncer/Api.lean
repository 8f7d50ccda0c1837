import Bakopa.Bloom.Id
import Bakopa.Syncer.Messages

/-!
# Bakopa.Syncer.Api

The types of `syncer/src/lib.rs`: requests and events, what goes over a transport, and the
`Transport` trait with the `FilteringTransport` around it.

A transport is a value that its operations replace. One that is filled from elsewhere (a bus, a
peer connection) holds what it will report: nothing is assumed of any transport.
-/

namespace Bakopa
namespace Syncer

inductive TransportPayload where
  | bytes (data : List UInt8)
  | audioFrame (frame : List UInt8)
deriving DecidableEq

namespace TransportPayload

variable [SerdeJson]

def parseEnvelope : TransportPayload → Except SyncMessageError SyncMessageEnvelope
  | .bytes data => SyncMessageEnvelope.fromSlice data
  | .audioFrame _ => .error (.unknownKind StreamKind.voice.asStr)

def parseSyncMessage : TransportPayload → Except SyncMessageError SyncMessage
  | .bytes data =>
    match SyncMessageEnvelope.fromSlice data with
    | .ok envelope => SyncMessage.fromEnvelope envelope
    | .error e => .error e
  | .audioFrame _ => .error (.unknownKind StreamKind.voice.asStr)

end TransportPayload

inductive TransportSendParams where
  | dataChannel (ordered reliable : Bool) (label : String)
  | audioTrack
deriving DecidableEq, Repr

def TransportSendParams.forStream : StreamKind → TransportSendParams
  | .pose => .dataChannel false false "sutera-data"
  | .chat | .controlJoin | .controlLeave | .signalingOffer | .signalingAnswer | .signalingIce =>
    .dataChannel true true "sutera-data"
  | .voice => .audioTrack

inductive TransportEvent where
  | received (fromId : ParticipantId) (payload : TransportPayload)
  | failure (peer : ParticipantId)
deriving DecidableEq

structure TracingContext where
  roomId : RoomId
  participantId : ParticipantId
  streamKind : StreamKind
deriving DecidableEq

inductive SyncerError where
  | invalidParticipantId (rawValue : String)
  | invalidPayload (e : SyncMessageError)
deriving DecidableEq

inductive SyncerRequest where
  | join (roomId : RoomId) (participantId : ParticipantId)
  | sendPose (fromId : ParticipantId) (pose : PoseMessage) (ctx : TracingContext)
  | sendChat (chat : ChatMessage) (ctx : TracingContext)
  | sendVoiceFrame (frame : List UInt8) (ctx : TracingContext)

inductive SyncerEvent where
  | selfJoined (roomId : RoomId) (participantId : ParticipantId)
  | peerJoined (participantId : ParticipantId)
  | peerLeft (participantId : ParticipantId)
  | poseReceived (fromId : ParticipantId) (pose : PoseMessage) (ctx : TracingContext)
  | chatReceived (chat : ChatMessage) (ctx : TracingContext)
  | voiceFrameReceived (fromId : ParticipantId) (frame : List UInt8) (ctx : TracingContext)
  | rateLimited (streamKind : StreamKind)
  | error (kind : SyncerError)
deriving DecidableEq

inductive PendingPeerEventKind where
  | joined
  | left
deriving DecidableEq

structure PendingPeerEvent where
  participantId : String
  reconnectToken : Option String
  reason : Option String
  kind : PendingPeerEventKind
deriving DecidableEq

def PendingPeerEvent.fromControl : ControlMessage → PendingPeerEvent
  | .join p => ⟨p.participantId, p.reconnectToken, p.reason, .joined⟩
  | .leave p => ⟨p.participantId, p.reconnectToken, p.reason, .left⟩

/-! ## Transports -/

class Transport (τ : Type) where
  registerParticipant : τ → ParticipantId → τ
  send : τ → ParticipantId → TransportPayload → TransportSendParams → τ
  poll : τ → τ × List TransportEvent

structure FilteringTransport (τ : Type) where
  inner : τ
  me : ParticipantId
  registered : Bool

namespace FilteringTransport

variable {τ : Type} [Transport τ]

def new (me : ParticipantId) (inner : τ) : FilteringTransport τ := ⟨inner, me, false⟩

def register (t : FilteringTransport τ) : FilteringTransport τ :=
  { t with registered := true, inner := Transport.registerParticipant t.inner t.me }

def send (t : FilteringTransport τ) (target : ParticipantId) (payload : TransportPayload)
    (params : TransportSendParams) : FilteringTransport τ :=
  if t.registered then { t with inner := Transport.send t.inner target payload params } else t

def poll (t : FilteringTransport τ) : FilteringTransport τ × List TransportEvent :=
  let (inner, events) := Transport.poll t.inner
  ({ t with inner }, events)

end FilteringTransport

end Syncer
end Bakopa

import Bakopa.Syncer.Json

/-!
# Bakopa.Syncer.Messages

The messages of `syncer/src/messages`: poses, chats, control and signaling messages, the envelope
they travel in, their validation and every error of decoding them.

`serde_json`'s text form is a parameter (`SerdeJson`): the bytes of an envelope, and the value that
bytes parse to. What the derived decoders and the checks of the source do with that value is
defined here. Encoding a message never fails, so there is no `serialize_failed`.
-/

namespace Bakopa
namespace Syncer

inductive StreamKind where
  | pose
  | chat
  | voice
  | controlJoin
  | controlLeave
  | signalingOffer
  | signalingAnswer
  | signalingIce
deriving DecidableEq, Repr

inductive SyncMessageError where
  | missingVersion
  | unsupportedVersion (received : UInt32)
  | unknownKind (value : String)
  | bodyTooLarge (bytes : Nat)
  | bodyJsonMalformed
  | schemaViolation (kind reason : String)
deriving DecidableEq, Repr

namespace Reason

def bodyNotObject : String := "body_not_object"
def versionNotU32 : String := "version_not_u32"
def missingKind : String := "missing_kind"
def kindNotString : String := "kind_not_string"
def missingBody : String := "missing_body"
def missingHead : String := "missing_head"
def invalidPose : String := "invalid_pose"
def missingSender : String := "missing_sender"
def messageLength : String := "message_length"
def invalidChat : String := "invalid_chat"
def unsupportedKind : String := "unsupported_kind"
def kindMismatch : String := "kind_mismatch"
def missingType : String := "missing_type"
def missingRoomId : String := "missing_room_id"
def missingAuthToken : String := "missing_auth_token"
def missingIcePolicy : String := "missing_ice_policy"
def missingSdp : String := "missing_sdp"
def invalidOffer : String := "invalid_offer"
def invalidAnswer : String := "invalid_answer"
def invalidIce : String := "invalid_ice"
def missingCandidate : String := "missing_candidate"
def invalidCandidate : String := "invalid_candidate"

end Reason

namespace StreamKind

def asStr : StreamKind → String
  | .pose => "pose"
  | .chat => "chat"
  | .voice => "voice"
  | .controlJoin => "control.join"
  | .controlLeave => "control.leave"
  | .signalingOffer => "signaling.offer"
  | .signalingAnswer => "signaling.answer"
  | .signalingIce => "signaling.ice"

def parse (value : String) : Except SyncMessageError StreamKind :=
  if value = "pose" then .ok .pose
  else if value = "chat" then .ok .chat
  else if value = "voice" then .ok .voice
  else if value = "control.join" then .ok .controlJoin
  else if value = "control.leave" then .ok .controlLeave
  else if value = "signaling.offer" then .ok .signalingOffer
  else if value = "signaling.answer" then .ok .signalingAnswer
  else if value = "signaling.ice" then .ok .signalingIce
  else .error (.unknownKind value)

theorem parse_asStr (kind : StreamKind) : parse kind.asStr = .ok kind := by
  cases kind <;> rfl

end StreamKind

def maxEnvelopeBytes : Nat := 64 * 1024

structure SyncMessageEnvelope where
  version : UInt32
  kind : StreamKind
  body : JsonValue

class SerdeJson where
  /-- `serde_json::from_slice::<Value>` -/
  fromSlice : List UInt8 → Option JsonValue
  /-- `serde_json::to_vec` of an envelope -/
  toVec : SyncMessageEnvelope → List UInt8
  /-- `to_value` of an `f32`: a float, or `null` when it is not finite. -/
  f32ToValue : F32 → JsonValue
  /-- The `f32` a number decodes to. -/
  f32FromNumber : JsonNumber → F32

def require {α : Type} (o : Option α) (e : SyncMessageError) : Except SyncMessageError α :=
  match o with
  | some a => .ok a
  | none => .error e

def ensure (ok : Bool) (e : SyncMessageError) : Except SyncMessageError Unit :=
  if ok then .ok () else .error e

@[simp] theorem require_some {α : Type} (a : α) (e : SyncMessageError) :
    require (some a) e = .ok a := rfl

@[simp] theorem ok_bind {α β : Type} (a : α) (f : α → Except SyncMessageError β) :
    ((.ok a : Except SyncMessageError α) >>= f) = f a := rfl

theorem require_eq_ok {α : Type} {o : Option α} {e : SyncMessageError} {a : α} :
    require o e = .ok a ↔ o = some a := by
  cases o <;> simp [require]

theorem ensure_eq_ok {ok : Bool} {e : SyncMessageError} {u : Unit} :
    ensure ok e = .ok u ↔ ok = true := by
  cases ok <;> simp [ensure]

theorem bind_eq_ok {α β : Type} {x : Except SyncMessageError α}
    {f : α → Except SyncMessageError β} {b : β} :
    (x >>= f) = .ok b ↔ ∃ a, x = .ok a ∧ f a = .ok b := by
  cases x with
  | ok a => simp
  | error e => simp [Bind.bind, Except.bind]

theorem pure_eq_ok {α : Type} {a b : α} :
    (pure a : Except SyncMessageError α) = .ok b ↔ a = b := by
  simp [pure, Except.pure]

theorem map_eq_ok {α β : Type} {x : Except SyncMessageError α} {f : α → β} {b : β} :
    x.map f = .ok b ↔ ∃ a, x = .ok a ∧ f a = b := by
  cases x <;> simp [Except.map]

/-! ## Poses -/

structure PoseTransform where
  position : F32 × F32 × F32
  rotation : F32 × F32 × F32 × F32
deriving DecidableEq

structure PoseMessage where
  version : UInt32
  timestampMicros : UInt64
  head : PoseTransform
  handL : Option PoseTransform
  handR : Option PoseTransform
deriving DecidableEq

section Poses

variable [SerdeJson]

def f32FromValue : JsonValue → Option F32
  | .number n => some (SerdeJson.f32FromNumber n)
  | _ => none

namespace PoseTransform

def toValue (t : PoseTransform) : JsonValue :=
  let (px, py, pz) := t.position
  let (rx, ry, rz, rw) := t.rotation
  .object [
    ("position", .array ([px, py, pz].map SerdeJson.f32ToValue)),
    ("rotation", .array ([rx, ry, rz, rw].map SerdeJson.f32ToValue))]

def decodePosition : JsonValue → Option (F32 × F32 × F32)
  | .array items =>
    match items.mapM f32FromValue with
    | some [x, y, z] => some (x, y, z)
    | _ => none
  | _ => none

def decodeRotation : JsonValue → Option (F32 × F32 × F32 × F32)
  | .array items =>
    match items.mapM f32FromValue with
    | some [x, y, z, w] => some (x, y, z, w)
    | _ => none
  | _ => none

/-- A derived decoder of a struct also takes an array of its fields. -/
def fromValue : JsonValue → Option PoseTransform
  | .object fields => do
    let position ← field fields "position" decodePosition
    let rotation ← field fields "rotation" decodeRotation
    return ⟨position, rotation⟩
  | .array [position, rotation] => do
    return ⟨← decodePosition position, ← decodeRotation rotation⟩
  | _ => none

end PoseTransform

namespace PoseMessage

def toValue (m : PoseMessage) : JsonValue :=
  .object [
    ("handL", .ofOption PoseTransform.toValue m.handL),
    ("handR", .ofOption PoseTransform.toValue m.handR),
    ("head", m.head.toValue),
    ("timestampMicros", .uint m.timestampMicros),
    ("version", .uint m.version.toUInt64)]

def decode (fields : List (String × JsonValue)) : Option PoseMessage := do
  let version ← field fields "version" JsonValue.toU32
  let timestampMicros ← field fields "timestampMicros" JsonValue.asU64
  let head ← field fields "head" PoseTransform.fromValue
  let handL ← optionField fields "handL" PoseTransform.fromValue
  let handR ← optionField fields "handR" PoseTransform.fromValue
  return ⟨version, timestampMicros, head, handL, handR⟩

def fromJsonBody (value : JsonValue) : Except SyncMessageError PoseMessage := do
  let fields ← require value.asObject (.schemaViolation "pose" Reason.bodyNotObject)
  ensure (fields.lookup "head").isSome (.schemaViolation "pose" Reason.missingHead)
  let pose ← require (decode fields) (.schemaViolation "pose" Reason.invalidPose)
  ensure (pose.version = 1) (.unsupportedVersion pose.version)
  return pose

def tryFrom (envelope : SyncMessageEnvelope) : Except SyncMessageError PoseMessage := do
  ensure (envelope.kind = .pose) (.schemaViolation "pose" Reason.kindMismatch)
  fromJsonBody envelope.body

end PoseMessage

end Poses

/-! ## Chats -/

structure ChatMessage where
  version : UInt32
  timestampMicros : UInt64
  sequenceId : UInt64
  sender : String
  message : String
deriving DecidableEq

namespace ChatMessage

def maxMessageLen : Nat := 2048

def validate (m : ChatMessage) : Except SyncMessageError Unit := do
  ensure (m.version = 1) (.unsupportedVersion m.version)
  ensure (m.sender ≠ "") (.schemaViolation "chat" Reason.missingSender)
  ensure (m.message ≠ "" ∧ m.message.length ≤ maxMessageLen)
    (.schemaViolation "chat" Reason.messageLength)

def toValue (m : ChatMessage) : JsonValue :=
  .object [
    ("message", .string m.message),
    ("sender", .string m.sender),
    ("sequenceId", .uint m.sequenceId),
    ("timestampMicros", .uint m.timestampMicros),
    ("version", .uint m.version.toUInt64)]

def decode (fields : List (String × JsonValue)) : Option ChatMessage := do
  let version ← field fields "version" JsonValue.toU32
  let timestampMicros ← field fields "timestampMicros" JsonValue.asU64
  let sequenceId ← field fields "sequenceId" JsonValue.asU64
  let sender ← field fields "sender" JsonValue.asStr
  let message ← field fields "message" JsonValue.asStr
  return ⟨version, timestampMicros, sequenceId, sender, message⟩

def fromJsonBody (value : JsonValue) : Except SyncMessageError ChatMessage := do
  let fields ← require value.asObject (.schemaViolation "chat" Reason.bodyNotObject)
  let msg ← require (decode fields) (.schemaViolation "chat" Reason.invalidChat)
  msg.validate
  return msg

def tryFrom (envelope : SyncMessageEnvelope) : Except SyncMessageError ChatMessage := do
  ensure (envelope.kind = .chat) (.schemaViolation "chat" Reason.kindMismatch)
  fromJsonBody envelope.body

end ChatMessage

/-! ## Control messages -/

structure ControlPayload where
  participantId : String
  reconnectToken : Option String
  reason : Option String
deriving DecidableEq

inductive ControlMessage where
  | join (payload : ControlPayload)
  | leave (payload : ControlPayload)
deriving DecidableEq

namespace ControlMessage

def payload : ControlMessage → ControlPayload
  | .join p | .leave p => p

/-- The tag of the derived form. -/
def type : ControlMessage → String
  | .join _ => "join"
  | .leave _ => "leave"

def kindStream : ControlMessage → StreamKind
  | .join _ => .controlJoin
  | .leave _ => .controlLeave

def toValue (m : ControlMessage) : JsonValue :=
  .object [
    ("participantId", .string m.payload.participantId),
    ("reason", .ofOption .string m.payload.reason),
    ("reconnectToken", .ofOption .string m.payload.reconnectToken),
    ("type", .string m.type)]

def decodePayload (fields : List (String × JsonValue)) : Option ControlPayload := do
  let participantId ← field fields "participantId" JsonValue.asStr
  let reconnectToken ← optionField fields "reconnectToken" JsonValue.asStr
  let reason ← optionField fields "reason" JsonValue.asStr
  return ⟨participantId, reconnectToken, reason⟩

def decode (fields : List (String × JsonValue)) : Option ControlMessage := do
  let tag ← field fields "type" JsonValue.asStr
  if tag = "join" then (decodePayload fields).map .join
  else if tag = "leave" then (decodePayload fields).map .leave
  else none

def fromJsonBody (value : JsonValue) : Except SyncMessageError ControlMessage := do
  let fields ← require value.asObject (.schemaViolation "control" Reason.bodyNotObject)
  require (decode fields) (.schemaViolation "control" Reason.unsupportedKind)

def tryFrom (envelope : SyncMessageEnvelope) : Except SyncMessageError ControlMessage := do
  ensure (envelope.kind = .controlJoin ∨ envelope.kind = .controlLeave)
    (.schemaViolation "control" Reason.kindMismatch)
  fromJsonBody envelope.body

end ControlMessage

/-! ## Signaling messages -/

structure SignalingOffer where
  version : UInt32
  roomId : String
  participantId : String
  authToken : String
  icePolicy : String
  sdp : String
deriving DecidableEq

structure SignalingAnswer where
  version : UInt32
  roomId : String
  participantId : String
  authToken : String
  sdp : String
deriving DecidableEq

structure SignalingIce where
  version : UInt32
  roomId : String
  participantId : String
  authToken : String
  candidate : String
  sdpMid : Option String
  sdpMlineIndex : Option UInt16
deriving DecidableEq

inductive SignalingMessage where
  | offer (offer : SignalingOffer)
  | answer (answer : SignalingAnswer)
  | ice (ice : SignalingIce)
deriving DecidableEq

def signalingViolation (reason : String) : SyncMessageError := .schemaViolation "signaling" reason

namespace SignalingOffer

def validate (m : SignalingOffer) : Except SyncMessageError Unit := do
  ensure (m.version = 1) (.unsupportedVersion m.version)
  ensure (m.roomId ≠ "") (signalingViolation Reason.missingRoomId)
  ensure (m.authToken ≠ "") (signalingViolation Reason.missingAuthToken)
  ensure (m.sdp ≠ "") (signalingViolation Reason.missingSdp)
  ensure (m.icePolicy ≠ "") (signalingViolation Reason.missingIcePolicy)

def decode (fields : List (String × JsonValue)) : Option SignalingOffer := do
  let version ← field fields "version" JsonValue.toU32
  let roomId ← field fields "roomId" JsonValue.asStr
  let participantId ← field fields "participantId" JsonValue.asStr
  let authToken ← field fields "authToken" JsonValue.asStr
  let icePolicy ← field fields "icePolicy" JsonValue.asStr
  let sdp ← field fields "sdp" JsonValue.asStr
  return ⟨version, roomId, participantId, authToken, icePolicy, sdp⟩

end SignalingOffer

namespace SignalingAnswer

def validate (m : SignalingAnswer) : Except SyncMessageError Unit := do
  ensure (m.version = 1) (.unsupportedVersion m.version)
  ensure (m.roomId ≠ "") (signalingViolation Reason.missingRoomId)
  ensure (m.authToken ≠ "") (signalingViolation Reason.missingAuthToken)
  ensure (m.sdp ≠ "") (signalingViolation Reason.missingSdp)

def decode (fields : List (String × JsonValue)) : Option SignalingAnswer := do
  let version ← field fields "version" JsonValue.toU32
  let roomId ← field fields "roomId" JsonValue.asStr
  let participantId ← field fields "participantId" JsonValue.asStr
  let authToken ← field fields "authToken" JsonValue.asStr
  let sdp ← field fields "sdp" JsonValue.asStr
  return ⟨version, roomId, participantId, authToken, sdp⟩

end SignalingAnswer

namespace SignalingIce

def maxCandidateLen : Nat := 1024

def validate (m : SignalingIce) : Except SyncMessageError Unit := do
  ensure (m.version = 1) (.unsupportedVersion m.version)
  ensure (m.roomId ≠ "") (signalingViolation Reason.missingRoomId)
  ensure (m.authToken ≠ "") (signalingViolation Reason.missingAuthToken)
  ensure (m.candidate ≠ "" ∧ m.candidate.utf8ByteSize ≤ maxCandidateLen)
    (signalingViolation Reason.invalidCandidate)

def decode (fields : List (String × JsonValue)) : Option SignalingIce := do
  let version ← field fields "version" JsonValue.toU32
  let roomId ← field fields "roomId" JsonValue.asStr
  let participantId ← field fields "participantId" JsonValue.asStr
  let authToken ← field fields "authToken" JsonValue.asStr
  let candidate ← field fields "candidate" JsonValue.asStr
  let sdpMid ← optionField fields "sdpMid" JsonValue.asStr
  let sdpMlineIndex ← optionField fields "sdpMlineIndex" JsonValue.toU16
  return ⟨version, roomId, participantId, authToken, candidate, sdpMid, sdpMlineIndex⟩

end SignalingIce

namespace SignalingMessage

def validate : SignalingMessage → Except SyncMessageError Unit
  | .offer m => m.validate
  | .answer m => m.validate
  | .ice m => m.validate

def kindStream : SignalingMessage → StreamKind
  | .offer _ => .signalingOffer
  | .answer _ => .signalingAnswer
  | .ice _ => .signalingIce

def toValue : SignalingMessage → JsonValue
  | .offer m => .object [
      ("authToken", .string m.authToken),
      ("icePolicy", .string m.icePolicy),
      ("participantId", .string m.participantId),
      ("roomId", .string m.roomId),
      ("sdp", .string m.sdp),
      ("type", .string "offer"),
      ("version", .uint m.version.toUInt64)]
  | .answer m => .object [
      ("authToken", .string m.authToken),
      ("participantId", .string m.participantId),
      ("roomId", .string m.roomId),
      ("sdp", .string m.sdp),
      ("type", .string "answer"),
      ("version", .uint m.version.toUInt64)]
  | .ice m => .object [
      ("authToken", .string m.authToken),
      ("candidate", .string m.candidate),
      ("participantId", .string m.participantId),
      ("roomId", .string m.roomId),
      ("sdpMid", .ofOption .string m.sdpMid),
      ("sdpMlineIndex", .ofOption (fun n => .uint n.toUInt64) m.sdpMlineIndex),
      ("type", .string "ice"),
      ("version", .uint m.version.toUInt64)]

def ensureField (fields : List (String × JsonValue)) (key reasonCode : String) :
    Except SyncMessageError Unit :=
  ensure (fields.lookup key).isSome (signalingViolation reasonCode)

/-- The derived decoder, once the tag is known. -/
def decode (fields : List (String × JsonValue)) (type : String) :
    Except SyncMessageError SignalingMessage :=
  if type = "offer" then do
    ensureField fields "roomId" Reason.missingRoomId
    ensureField fields "authToken" Reason.missingAuthToken
    ensureField fields "icePolicy" Reason.missingIcePolicy
    ensureField fields "sdp" Reason.missingSdp
    let m ← require (SignalingOffer.decode fields) (signalingViolation Reason.invalidOffer)
    return .offer m
  else if type = "answer" then do
    ensureField fields "roomId" Reason.missingRoomId
    ensureField fields "authToken" Reason.missingAuthToken
    ensureField fields "sdp" Reason.missingSdp
    let m ← require (SignalingAnswer.decode fields) (signalingViolation Reason.invalidAnswer)
    return .answer m
  else if type = "ice" then do
    ensureField fields "roomId" Reason.missingRoomId
    ensureField fields "authToken" Reason.missingAuthToken
    ensureField fields "candidate" Reason.missingCandidate
    let m ← require (SignalingIce.decode fields) (signalingViolation Reason.invalidIce)
    return .ice m
  else .error (signalingViolation Reason.unsupportedKind)

def fromJsonBody (value : JsonValue) : Except SyncMessageError SignalingMessage := do
  let fields ← require value.asObject (signalingViolation Reason.bodyNotObject)
  let type ← require (field fields "type" JsonValue.asStr) (signalingViolation Reason.missingType)
  let message ← decode fields type
  message.validate
  return message

def tryFrom (envelope : SyncMessageEnvelope) : Except SyncMessageError SignalingMessage := do
  ensure (envelope.kind = .signalingOffer ∨ envelope.kind = .signalingAnswer ∨
    envelope.kind = .signalingIce) (signalingViolation Reason.kindMismatch)
  fromJsonBody envelope.body

end SignalingMessage

/-! ## Envelopes -/

namespace SyncMessageEnvelope

section Decode

variable [SerdeJson]

def fromSlice (bytes : List UInt8) : Except SyncMessageError SyncMessageEnvelope := do
  ensure (bytes.length ≤ maxEnvelopeBytes) (.bodyTooLarge bytes.length)
  let raw ← require (SerdeJson.fromSlice bytes) .bodyJsonMalformed
  let envelope ← require raw.asObject (.schemaViolation "envelope" Reason.bodyNotObject)
  let versionValue ← require (envelope.lookup "v") .missingVersion
  let version ← require versionValue.toU32 (.schemaViolation "envelope" Reason.versionNotU32)
  ensure (version = 1) (.unsupportedVersion version)
  let kindValue ← require (envelope.lookup "kind") (.schemaViolation "envelope" Reason.missingKind)
  let kindStr ← require kindValue.asStr (.schemaViolation "envelope" Reason.kindNotString)
  let kind ← StreamKind.parse kindStr
  let body ← require (envelope.lookup "body") (.schemaViolation kind.asStr Reason.missingBody)
  ensure body.isObject (.schemaViolation kind.asStr Reason.bodyNotObject)
  return ⟨version, kind, body⟩

def fromPose (message : PoseMessage) : Except SyncMessageError SyncMessageEnvelope := do
  ensure (message.version = 1) (.unsupportedVersion message.version)
  return ⟨1, .pose, message.toValue⟩

end Decode

def fromChat (message : ChatMessage) : Except SyncMessageError SyncMessageEnvelope := do
  message.validate
  return ⟨1, .chat, message.toValue⟩

def fromControl (message : ControlMessage) : Except SyncMessageError SyncMessageEnvelope :=
  return ⟨1, message.kindStream, message.toValue⟩

def fromSignaling (message : SignalingMessage) :
    Except SyncMessageError SyncMessageEnvelope := do
  message.validate
  return ⟨1, message.kindStream, message.toValue⟩

/-- The value of an envelope. -/
def toValue (env : SyncMessageEnvelope) : JsonValue :=
  .object [
    ("body", env.body),
    ("kind", .string env.kind.asStr),
    ("v", .uint env.version.toUInt64)]

end SyncMessageEnvelope

inductive SyncMessage where
  | pose (message : PoseMessage)
  | chat (message : ChatMessage)
  | control (message : ControlMessage)
  | signaling (message : SignalingMessage)
deriving DecidableEq

namespace SyncMessage

variable [SerdeJson]

def intoEnvelope : SyncMessage → Except SyncMessageError SyncMessageEnvelope
  | .pose m => SyncMessageEnvelope.fromPose m
  | .chat m => SyncMessageEnvelope.fromChat m
  | .control m => SyncMessageEnvelope.fromControl m
  | .signaling m => SyncMessageEnvelope.fromSignaling m

def fromEnvelope (envelope : SyncMessageEnvelope) : Except SyncMessageError SyncMessage :=
  match envelope.kind with
  | .pose => (PoseMessage.tryFrom envelope).map .pose
  | .chat => (ChatMessage.tryFrom envelope).map .chat
  | .controlJoin | .controlLeave => (ControlMessage.tryFrom envelope).map .control
  | .signalingOffer | .signalingAnswer | .signalingIce =>
    (SignalingMessage.tryFrom envelope).map .signaling
  | .voice => .error (.unknownKind StreamKind.voice.asStr)

end SyncMessage

/-- `serde_json` reads the envelopes of messages as they were written. -/
class LosslessJson [SerdeJson] : Prop where
  fromSlice_toVec {m : SyncMessage} {env : SyncMessageEnvelope} (h : m.intoEnvelope = .ok env) :
    SerdeJson.fromSlice (SerdeJson.toVec env) = some env.toValue

end Syncer
end Bakopa

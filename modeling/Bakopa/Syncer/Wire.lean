import Mathlib.Data.String.Basic
import Bakopa.Syncer.TransportInbox

/-!
# Bakopa.Syncer.Wire

What the bytes of an envelope decode to, when `serde_json` is lossless: control messages and valid
chats come back as they were sent (`parse_envelope`), as long as the envelope fits the limit of
`from_slice`. A larger one is an error (`parse_large`).
-/

namespace Bakopa
namespace Syncer

variable [SerdeJson]

/-- The envelope fits the limit of `from_slice`. -/
def SyncMessageEnvelope.Fits (env : SyncMessageEnvelope) : Prop :=
  (SerdeJson.toVec env).length ≤ maxEnvelopeBytes

theorem fromSlice_toVec [LosslessJson] {m : SyncMessage} {env : SyncMessageEnvelope}
    (h : m.intoEnvelope = .ok env) (hv : env.version = 1) (hobject : env.body.isObject = true)
    (hfits : env.Fits) : SyncMessageEnvelope.fromSlice (SerdeJson.toVec env) = .ok env := by
  have hversion : (JsonValue.uint env.version.toUInt64).toU32 = some env.version := by
    rw [hv]
    decide
  have hlen := decide_eq_true (show (SerdeJson.toVec env).length ≤ maxEnvelopeBytes from hfits)
  have hone := decide_eq_true hv
  simp only [SyncMessageEnvelope.fromSlice, LosslessJson.fromSlice_toVec h, require_some,
    SyncMessageEnvelope.toValue, JsonValue.asObject, List.lookup_cons, String.reduceBEq, hversion,
    ensure, hlen, hone, if_true, JsonValue.asStr, StreamKind.parse_asStr, hobject, ok_bind]
  rfl

instance (env : SyncMessageEnvelope) : Decidable env.Fits :=
  inferInstanceAs (Decidable (_ ≤ _))

theorem fromSlice_large {env : SyncMessageEnvelope} (h : ¬ env.Fits) :
    SyncMessageEnvelope.fromSlice (SerdeJson.toVec env) =
      .error (.bodyTooLarge (SerdeJson.toVec env).length) := by
  have hlen := decide_eq_false (show ¬ (SerdeJson.toVec env).length ≤ maxEnvelopeBytes from h)
  simp only [SyncMessageEnvelope.fromSlice, hlen, ensure]
  rfl

namespace ControlMessage

omit [SerdeJson] in
theorem lossless_toValue (m : ControlMessage) : m.toValue.Lossless := by
  have hoption := JsonValue.lossless_ofOption JsonValue.Lossless.string
  refine .object ?_ ?_
  · simp only [List.map_cons, List.map_nil]
    decide
  intro f hf
  simp only [List.mem_cons, List.not_mem_nil, or_false] at hf
  rcases hf with rfl | rfl | rfl | rfl
  · exact .string _
  · exact hoption _
  · exact hoption _
  · exact .string _

omit [SerdeJson] in
theorem decodePayload_fields (p : ControlPayload) (tag : String) :
    decodePayload [
      ("participantId", .string p.participantId),
      ("reason", .ofOption .string p.reason),
      ("reconnectToken", .ofOption .string p.reconnectToken),
      ("type", .string tag)] = some p := by
  obtain ⟨id, token, reason⟩ := p
  cases token <;> cases reason <;> rfl

omit [SerdeJson] in
theorem tryFrom_toValue (m : ControlMessage) :
    ControlMessage.tryFrom ⟨1, m.kindStream, m.toValue⟩ = .ok m := by
  cases m with
  | join p =>
    have hp := decodePayload_fields p "join"
    simp [ControlMessage.tryFrom, fromJsonBody, ensure, kindStream, JsonValue.asObject, toValue,
      decode, field, List.lookup_cons, JsonValue.asStr, type, payload, hp]
  | leave p =>
    have hp := decodePayload_fields p "leave"
    simp [ControlMessage.tryFrom, fromJsonBody, ensure, kindStream, JsonValue.asObject, toValue,
      decode, field, List.lookup_cons, JsonValue.asStr, type, payload, hp]

/-- The envelope of `from_control`. -/
def envelope (m : ControlMessage) : SyncMessageEnvelope := ⟨1, m.kindStream, m.toValue⟩

theorem fromEnvelope_envelope (m : ControlMessage) :
    SyncMessage.fromEnvelope m.envelope = .ok (.control m) := by
  have htry := m.tryFrom_toValue
  cases m with
  | join p =>
    change Except.map SyncMessage.control (ControlMessage.tryFrom ⟨1, .controlJoin, _⟩) = _
    rw [show ControlMessage.tryFrom ⟨1, .controlJoin, _⟩ = _ from htry]
    rfl
  | leave p =>
    change Except.map SyncMessage.control (ControlMessage.tryFrom ⟨1, .controlLeave, _⟩) = _
    rw [show ControlMessage.tryFrom ⟨1, .controlLeave, _⟩ = _ from htry]
    rfl

theorem parse_envelope [LosslessJson] (m : ControlMessage) (hfits : m.envelope.Fits) :
    (TransportPayload.bytes (SerdeJson.toVec m.envelope)).parseSyncMessage = .ok (.control m) := by
  have hinto : (SyncMessage.control m).intoEnvelope = .ok m.envelope := rfl
  have hslice := fromSlice_toVec hinto rfl rfl hfits
  simp only [TransportPayload.parseSyncMessage, hslice, fromEnvelope_envelope]

end ControlMessage

namespace ChatMessage

omit [SerdeJson] in
theorem lossless_toValue (m : ChatMessage) : m.toValue.Lossless := by
  refine .object ?_ ?_
  · simp only [List.map_cons, List.map_nil]
    decide
  · intro f hf
    simp only [List.mem_cons, List.not_mem_nil, or_false] at hf
    rcases hf with rfl | rfl | rfl | rfl | rfl
    · exact .string _
    · exact .string _
    · exact .uint _
    · exact .uint _
    · exact .uint _

omit [SerdeJson] in
theorem toU32_uint (n : UInt32) : (JsonValue.uint n.toUInt64).toU32 = some n := by
  have hn : n.toNat < 2 ^ 32 := n.toNat_lt
  simp only [JsonValue.toU32, JsonValue.toUInt, JsonValue.uint, JsonValue.asU64,
    UInt32.toNat_toUInt64, hn, if_true, Option.map_some, UInt32.ofNat_toNat]

omit [SerdeJson] in
theorem decode_fields (m : ChatMessage) :
    decode [
      ("message", .string m.message),
      ("sender", .string m.sender),
      ("sequenceId", .uint m.sequenceId),
      ("timestampMicros", .uint m.timestampMicros),
      ("version", .uint m.version.toUInt64)] = some m := by
  have hasU64 : ∀ n, (JsonValue.uint n).asU64 = some n := fun _ => rfl
  simp [decode, field, List.lookup_cons, JsonValue.asStr, toU32_uint, hasU64]

omit [SerdeJson] in
theorem tryFrom_toValue {m : ChatMessage} (h : m.validate = .ok ()) :
    ChatMessage.tryFrom ⟨1, .chat, m.toValue⟩ = .ok m := by
  simp [ChatMessage.tryFrom, fromJsonBody, ensure, JsonValue.asObject, toValue, decode_fields, h]

/-- The envelope of `from_chat`. -/
def envelope (m : ChatMessage) : SyncMessageEnvelope := ⟨1, .chat, m.toValue⟩

theorem parse_envelope [LosslessJson] {m : ChatMessage} (h : m.validate = .ok ())
    (hfits : m.envelope.Fits) :
    (TransportPayload.bytes (SerdeJson.toVec m.envelope)).parseSyncMessage = .ok (.chat m) := by
  have hinto : (SyncMessage.chat m).intoEnvelope = .ok m.envelope := by
    rw [SyncMessage.intoEnvelope, SyncMessageEnvelope.fromChat, h]
    rfl
  have hslice := fromSlice_toVec hinto rfl rfl hfits
  have hmessage : SyncMessage.fromEnvelope m.envelope = .ok (.chat m) := by
    change Except.map SyncMessage.chat (ChatMessage.tryFrom ⟨1, .chat, m.toValue⟩) = _
    rw [tryFrom_toValue h]
    rfl
  simp only [TransportPayload.parseSyncMessage, hslice, hmessage]

theorem parse_large {m : ChatMessage} (hlarge : ¬ m.envelope.Fits) :
    (TransportPayload.bytes (SerdeJson.toVec m.envelope)).parseSyncMessage =
      .error (.bodyTooLarge (SerdeJson.toVec m.envelope).length) := by
  simp only [TransportPayload.parseSyncMessage, fromSlice_large hlarge]

end ChatMessage

/-- The join message of `p` is within the limit. (In the crates' texts it is some 150 bytes.) -/
def JoinFits [UuidCrate] (p : ParticipantId) : Prop :=
  (ControlMessage.join ⟨p.toString, none, none⟩).envelope.Fits

instance [UuidCrate] (p : ParticipantId) : Decidable (JoinFits p) :=
  inferInstanceAs (Decidable (SyncMessageEnvelope.Fits _))

theorem presence_join [UuidCrate] [LawfulUuid] [LosslessJson] {p q : ParticipantId}
    (hfits : JoinFits p) :
    (TransportEvent.received q (.bytes (SerdeJson.toVec
      (ControlMessage.join ⟨p.toString, none, none⟩).envelope))).presence = some (.join p) := by
  simp only [TransportEvent.presence, ControlMessage.parse_envelope _ hfits,
    ParticipantId.fromStr_toString, Option.map_some]

end Syncer
end Bakopa

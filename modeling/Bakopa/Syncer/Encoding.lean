import Bakopa.Syncer.JsonText
import Bakopa.Syncer.Wire

/-!
# Bakopa.Syncer.Encoding

Messages and envelopes, there and back, for all seven shapes.

* `received_iff` — what the sender accepts comes back as it was sent exactly when its bytes are
  within the limit of `from_slice`, which only the receiver checks, and its coordinates are finite.
-/

namespace Bakopa
namespace Syncer

def F32.IsFinite (x : F32) : Prop := x.extractLsb' 23 8 ≠ BitVec.allOnes 8

instance : DecidablePred F32.IsFinite := fun _ => inferInstanceAs (Decidable (_ ≠ _))

/-- What `serde_json` does with an `f32`: a finite one is written as a number that reads back as
itself, every other one as `null`. -/
class LawfulFloats [SerdeJson] : Prop where
  finite {x : F32} (h : F32.IsFinite x) : ∃ n, SerdeJson.f32ToValue x = .number n ∧
    (JsonValue.number n).Lossless ∧ SerdeJson.f32FromNumber n = x
  not_finite {x : F32} (h : ¬ F32.IsFinite x) : SerdeJson.f32ToValue x = .null

theorem JsonText.serdeText_floats : @LawfulFloats JsonText.serdeText := by
  refine @LawfulFloats.mk JsonText.serdeText ?_ ?_
  · intro x h
    refine ⟨.float (x.zeroExtend 64), if_neg h, .float ?_, ?_⟩
    · intro hones
      have hbit := congrArg (fun b => b.getLsbD 0) hones
      simp at hbit
    · change (x.zeroExtend 64).truncate 32 = x
      simp
  · intro x h
    exact if_pos (not_not.mp h)

def PoseTransform.coordinates (t : PoseTransform) : List F32 :=
  let (px, py, pz) := t.position
  let (rx, ry, rz, rw) := t.rotation
  [px, py, pz] ++ [rx, ry, rz, rw]

def PoseTransform.IsFinite (t : PoseTransform) : Prop := ∀ x ∈ t.coordinates, F32.IsFinite x

instance : DecidablePred PoseTransform.IsFinite := fun t =>
  inferInstanceAs (Decidable (∀ x ∈ t.coordinates, F32.IsFinite x))

def PoseMessage.transforms (m : PoseMessage) : List PoseTransform :=
  m.head :: (m.handL.toList ++ m.handR.toList)

/-- Every coordinate of a pose is finite. -/
def SyncMessage.IsFinite : SyncMessage → Prop
  | .pose m => ∀ t ∈ m.transforms, t.IsFinite
  | _ => True

section Decoders

theorem PoseMessage.tryFrom_eq_ok [SerdeJson] {env : SyncMessageEnvelope} {m : PoseMessage} :
    PoseMessage.tryFrom env = .ok m ↔ env.kind = .pose ∧ ∃ fields,
      env.body.asObject = some fields ∧ (fields.lookup "head").isSome = true ∧
      PoseMessage.decode fields = some m ∧ m.version = 1 := by
  simp only [tryFrom, fromJsonBody, bind_eq_ok, ensure_eq_ok, require_eq_ok, pure_eq_ok,
    decide_eq_true_eq, exists_const]
  constructor
  · rintro ⟨hkind, fields, hobject, hhead, m, hdecode, hversion, rfl⟩
    exact ⟨hkind, fields, hobject, hhead, hdecode, hversion⟩
  · rintro ⟨hkind, fields, hobject, hhead, hdecode, hversion⟩
    exact ⟨hkind, fields, hobject, hhead, m, hdecode, hversion, rfl⟩

theorem ChatMessage.tryFrom_eq_ok {env : SyncMessageEnvelope} {m : ChatMessage} :
    ChatMessage.tryFrom env = .ok m ↔ env.kind = .chat ∧ ∃ fields,
      env.body.asObject = some fields ∧ ChatMessage.decode fields = some m ∧
      m.validate = .ok () := by
  simp only [tryFrom, fromJsonBody, bind_eq_ok, ensure_eq_ok, require_eq_ok, pure_eq_ok,
    decide_eq_true_eq, exists_const]
  constructor
  · rintro ⟨hkind, fields, hobject, m, hdecode, ⟨⟩, hvalid, rfl⟩
    exact ⟨hkind, fields, hobject, hdecode, hvalid⟩
  · rintro ⟨hkind, fields, hobject, hdecode, hvalid⟩
    exact ⟨hkind, fields, hobject, m, hdecode, (), hvalid, rfl⟩

theorem ControlMessage.tryFrom_eq_ok {env : SyncMessageEnvelope} {m : ControlMessage} :
    ControlMessage.tryFrom env = .ok m ↔
      (env.kind = .controlJoin ∨ env.kind = .controlLeave) ∧ ∃ fields,
      env.body.asObject = some fields ∧ ControlMessage.decode fields = some m := by
  simp only [tryFrom, fromJsonBody, bind_eq_ok, ensure_eq_ok, require_eq_ok, decide_eq_true_eq,
    exists_const]

theorem SignalingMessage.tryFrom_eq_ok {env : SyncMessageEnvelope} {m : SignalingMessage} :
    SignalingMessage.tryFrom env = .ok m ↔
      (env.kind = .signalingOffer ∨ env.kind = .signalingAnswer ∨ env.kind = .signalingIce) ∧
      ∃ fields type, env.body.asObject = some fields ∧
      field fields "type" JsonValue.asStr = some type ∧
      SignalingMessage.decode fields type = .ok m ∧ m.validate = .ok () := by
  simp only [tryFrom, fromJsonBody, bind_eq_ok, ensure_eq_ok, require_eq_ok, pure_eq_ok,
    decide_eq_true_eq, exists_const]
  constructor
  · rintro ⟨hkind, fields, hobject, type, htype, m, hdecode, ⟨⟩, hvalid, rfl⟩
    exact ⟨hkind, fields, type, hobject, htype, hdecode, hvalid⟩
  · rintro ⟨hkind, fields, type, hobject, htype, hdecode, hvalid⟩
    exact ⟨hkind, fields, hobject, type, htype, m, hdecode, (), hvalid, rfl⟩

theorem optionField_ofOption {α : Type} {fields : List (String × JsonValue)} {key : String}
    {toValue : α → JsonValue} {decode : JsonValue → Option α} {o : Option α}
    (h : fields.lookup key = some (.ofOption toValue o)) (hnull : ∀ a, toValue a ≠ .null) :
    optionField fields key decode =
      o.elim (some none) fun a => (decode (toValue a)).map some := by
  cases o with
  | none => simp only [optionField, h, JsonValue.ofOption, Option.elim_none]
  | some a =>
    simp only [optionField, h, JsonValue.ofOption, Option.elim_some]
    split
    · rename_i heq
      cases heq
    · rename_i heq
      exact absurd (Option.some_inj.mp heq) (hnull a)
    · rename_i heq
      rw [Option.some_inj.mp heq]

end Decoders

/-! ## Poses -/

section Poses

variable [SerdeJson]

theorem f32FromValue_f32ToValue [LawfulFloats] (x : F32) :
    f32FromValue (SerdeJson.f32ToValue x) = if F32.IsFinite x then some x else none := by
  by_cases h : F32.IsFinite x
  · obtain ⟨n, hvalue, -, hback⟩ := LawfulFloats.finite h
    rw [if_pos h, hvalue, f32FromValue, hback]
  · rw [if_neg h, LawfulFloats.not_finite h]
    rfl

theorem lossless_f32ToValue [LawfulFloats] (x : F32) : (SerdeJson.f32ToValue x).Lossless := by
  by_cases h : F32.IsFinite x
  · obtain ⟨n, hvalue, hn, -⟩ := LawfulFloats.finite h
    rw [hvalue]
    exact hn
  · rw [LawfulFloats.not_finite h]
    exact .null

theorem mapM_f32FromValue [LawfulFloats] (xs : List F32) :
    (xs.map SerdeJson.f32ToValue).mapM f32FromValue =
      if ∀ x ∈ xs, F32.IsFinite x then some xs else none := by
  induction xs with
  | nil => simp
  | cons x xs ih =>
    rw [List.map_cons, List.mapM_cons, f32FromValue_f32ToValue, ih]
    simp only [List.forall_mem_cons]
    by_cases hx : F32.IsFinite x
    · by_cases hxs : ∀ y ∈ xs, F32.IsFinite y
      · rw [if_pos hx, if_pos hxs, if_pos ⟨hx, hxs⟩]
        rfl
      · rw [if_pos hx, if_neg hxs, if_neg fun h => hxs h.2]
        rfl
    · have hnot : ¬ (F32.IsFinite x ∧ ∀ y ∈ xs, F32.IsFinite y) := fun h => hx h.1
      rw [if_neg hx, if_neg hnot]
      rfl

namespace PoseTransform

theorem lossless_toValue [LawfulFloats] (t : PoseTransform) : t.toValue.Lossless := by
  have harray : ∀ xs : List F32, (JsonValue.array (xs.map SerdeJson.f32ToValue)).Lossless := by
    intro xs
    refine .array fun v hv => ?_
    obtain ⟨x, -, rfl⟩ := List.mem_map.mp hv
    exact lossless_f32ToValue x
  refine .object ?_ ?_
  · simp only [List.map_cons, List.map_nil]
    decide
  · intro f hf
    simp only [List.mem_cons, List.not_mem_nil, or_false] at hf
    rcases hf with rfl | rfl
    · exact harray _
    · exact harray _

theorem fromValue_toValue [LawfulFloats] (t : PoseTransform) :
    fromValue t.toValue = if t.IsFinite then some t else none := by
  obtain ⟨⟨px, py, pz⟩, ⟨rx, ry, rz, rw'⟩⟩ := t
  have hposition : decodePosition (.array ([px, py, pz].map SerdeJson.f32ToValue)) =
      if ∀ x ∈ [px, py, pz], F32.IsFinite x then some (px, py, pz) else none := by
    rw [decodePosition, mapM_f32FromValue]
    split_ifs <;> rfl
  have hrotation : decodeRotation (.array ([rx, ry, rz, rw'].map SerdeJson.f32ToValue)) =
      if ∀ x ∈ [rx, ry, rz, rw'], F32.IsFinite x then some (rx, ry, rz, rw') else none := by
    rw [decodeRotation, mapM_f32FromValue]
    split_ifs <;> rfl
  simp only [toValue, fromValue, field, List.lookup_cons, String.reduceBEq, hposition, hrotation,
    IsFinite, coordinates, List.forall_mem_append]
  by_cases hp : ∀ x ∈ [px, py, pz], F32.IsFinite x
  · by_cases hr : ∀ x ∈ [rx, ry, rz, rw'], F32.IsFinite x
    · rw [if_pos hp, if_pos hr, if_pos ⟨hp, hr⟩]
      rfl
    · rw [if_pos hp, if_neg hr, if_neg fun h => hr h.2]
      rfl
  · have hnot : ¬ ((∀ x ∈ [px, py, pz], F32.IsFinite x) ∧
        ∀ x ∈ [rx, ry, rz, rw'], F32.IsFinite x) := fun h => hp h.1
    rw [if_neg hp, if_neg hnot]
    rfl

end PoseTransform

namespace PoseMessage

theorem lossless_toValue [LawfulFloats] (m : PoseMessage) : m.toValue.Lossless := by
  have hoption := JsonValue.lossless_ofOption PoseTransform.lossless_toValue
  refine .object ?_ ?_
  · simp only [List.map_cons, List.map_nil]
    decide
  · intro f hf
    simp only [List.mem_cons, List.not_mem_nil, or_false] at hf
    rcases hf with rfl | rfl | rfl | rfl | rfl
    · exact hoption _
    · exact hoption _
    · exact m.head.lossless_toValue
    · exact .uint _
    · exact .uint _

theorem decode_fields [LawfulFloats] (m m' : PoseMessage) :
    decode [
      ("handL", .ofOption PoseTransform.toValue m.handL),
      ("handR", .ofOption PoseTransform.toValue m.handR),
      ("head", m.head.toValue),
      ("timestampMicros", .uint m.timestampMicros),
      ("version", .uint m.version.toUInt64)] = some m' ↔
      m = m' ∧ ∀ t ∈ m.transforms, t.IsFinite := by
  have hasU64 : ∀ n, (JsonValue.uint n).asU64 = some n := fun _ => rfl
  have hhand : ∀ (fields : List (String × JsonValue)) key o,
      fields.lookup key = some (.ofOption PoseTransform.toValue o) →
      optionField fields key PoseTransform.fromValue =
        if ∀ t ∈ o, t.IsFinite then some o else none := by
    intro fields key o hlookup
    rw [optionField_ofOption hlookup fun t => by simp [PoseTransform.toValue]]
    cases o with
    | none => simp
    | some t =>
      simp only [Option.elim_some, PoseTransform.fromValue_toValue, Option.mem_some_iff, forall_eq']
      split_ifs <;> rfl
  have hL := fun rest => hhand (("handL", .ofOption PoseTransform.toValue m.handL) :: rest)
    "handL" m.handL rfl
  have hR := fun rest => hhand (("handL", .ofOption PoseTransform.toValue m.handL) ::
    ("handR", .ofOption PoseTransform.toValue m.handR) :: rest) "handR" m.handR rfl
  simp only [decode, field, List.lookup_cons, String.reduceBEq, ChatMessage.toU32_uint, hasU64,
    PoseTransform.fromValue_toValue, hL, hR, Option.bind_eq_bind, Option.bind_some,
    Option.bind_eq_some_iff, Option.ite_none_right_eq_some, Option.pure_def, Option.some_inj,
    transforms, List.forall_mem_cons, List.forall_mem_append, Option.mem_toList]
  constructor
  · rintro ⟨_, ⟨hhead, rfl⟩, _, ⟨hl, rfl⟩, _, ⟨hr, rfl⟩, rfl⟩
    exact ⟨rfl, hhead, hl, hr⟩
  · rintro ⟨rfl, hhead, hl, hr⟩
    exact ⟨_, ⟨hhead, rfl⟩, _, ⟨hl, rfl⟩, _, ⟨hr, rfl⟩, rfl⟩

/-- The envelope of `from_pose`. -/
def envelope (m : PoseMessage) : SyncMessageEnvelope := ⟨1, .pose, m.toValue⟩

theorem fromEnvelope_envelope [LawfulFloats] {m : PoseMessage} (hv : m.version = 1) :
    SyncMessage.fromEnvelope m.envelope = .ok (.pose m) ↔ ∀ t ∈ m.transforms, t.IsFinite := by
  have htry : SyncMessage.fromEnvelope m.envelope = (tryFrom m.envelope).map .pose := rfl
  simp only [htry, map_eq_ok, SyncMessage.pose.injEq, exists_eq_right, tryFrom_eq_ok]
  constructor
  · rintro ⟨-, fields, hobject, -, hdecode, -⟩
    cases hobject
    exact ((m.decode_fields m).mp hdecode).2
  · intro hfinite
    exact ⟨rfl, _, rfl, rfl, (m.decode_fields m).mpr ⟨rfl, hfinite⟩, hv⟩

end PoseMessage

end Poses

/-! ## Signaling messages -/

namespace SignalingMessage

theorem lossless_toValue (m : SignalingMessage) : m.toValue.Lossless := by
  have hstring := JsonValue.lossless_ofOption JsonValue.Lossless.string
  have huint := JsonValue.lossless_ofOption fun n : UInt16 => .uint n.toUInt64
  cases m with
  | offer m =>
    refine .object (by simp only [List.map_cons, List.map_nil]; decide) ?_
    intro f hf
    simp only [List.mem_cons, List.not_mem_nil, or_false] at hf
    rcases hf with rfl | rfl | rfl | rfl | rfl | rfl | rfl
    all_goals first | exact .string _ | exact .uint _
  | answer m =>
    refine .object (by simp only [List.map_cons, List.map_nil]; decide) ?_
    intro f hf
    simp only [List.mem_cons, List.not_mem_nil, or_false] at hf
    rcases hf with rfl | rfl | rfl | rfl | rfl | rfl
    all_goals first | exact .string _ | exact .uint _
  | ice m =>
    refine .object (by simp only [List.map_cons, List.map_nil]; decide) ?_
    intro f hf
    simp only [List.mem_cons, List.not_mem_nil, or_false] at hf
    rcases hf with rfl | rfl | rfl | rfl | rfl | rfl | rfl | rfl
    all_goals first | exact .string _ | exact .uint _ | exact hstring _ | exact huint _

/-- The tag of the derived form. -/
def type : SignalingMessage → String
  | .offer _ => "offer"
  | .answer _ => "answer"
  | .ice _ => "ice"

theorem toU16_uint (n : UInt16) : (JsonValue.uint n.toUInt64).toU16 = some n := by
  have hn : n.toNat < 2 ^ 16 := n.toNat_lt
  simp only [JsonValue.toU16, JsonValue.toUInt, JsonValue.uint, JsonValue.asU64,
    UInt16.toNat_toUInt64, hn, if_true, Option.map_some, UInt16.ofNat_toNat]

theorem decode_toValue (m : SignalingMessage) : ∃ fields, m.toValue.asObject = some fields ∧
    field fields "type" JsonValue.asStr = some m.type ∧ decode fields m.type = .ok m := by
  cases m with
  | offer m =>
    refine ⟨_, rfl, by simp [field, List.lookup_cons, JsonValue.asStr, type], ?_⟩
    simp [decode, type, ensureField, SignalingOffer.decode, field, List.lookup_cons,
      JsonValue.asStr, ChatMessage.toU32_uint, ensure]
  | answer m =>
    refine ⟨_, rfl, by simp [field, List.lookup_cons, JsonValue.asStr, type], ?_⟩
    simp [decode, type, ensureField, SignalingAnswer.decode, field, List.lookup_cons,
      JsonValue.asStr, ChatMessage.toU32_uint, ensure]
  | ice m =>
    refine ⟨_, rfl, by simp [field, List.lookup_cons, JsonValue.asStr, type], ?_⟩
    obtain ⟨version, roomId, participantId, authToken, candidate, sdpMid, sdpMlineIndex⟩ := m
    have hversion : (JsonValue.number (.posInt version.toUInt64)).toU32 = some version :=
      ChatMessage.toU32_uint version
    have hindex : ∀ n : UInt16, (JsonValue.number (.posInt n.toUInt64)).toU16 = some n := toU16_uint
    cases sdpMid <;> cases sdpMlineIndex <;>
    simp [decode, type, ensureField, SignalingIce.decode, field, optionField, List.lookup_cons,
      JsonValue.asStr, JsonValue.ofOption, JsonValue.uint, hversion, hindex, ensure]

/-- The envelope of `from_signaling`. -/
def envelope (m : SignalingMessage) : SyncMessageEnvelope := ⟨1, m.kindStream, m.toValue⟩

theorem tryFrom_envelope {m : SignalingMessage} (h : m.validate = .ok ()) :
    tryFrom m.envelope = .ok m := by
  obtain ⟨fields, hobject, htype, hdecode⟩ := m.decode_toValue
  have hkind : m.kindStream = .signalingOffer ∨ m.kindStream = .signalingAnswer ∨
      m.kindStream = .signalingIce := by
    cases m <;> simp [kindStream]
  exact tryFrom_eq_ok.mpr ⟨hkind, fields, m.type, hobject, htype, hdecode, h⟩

end SignalingMessage

/-! ## All messages -/

namespace SyncMessage

/-- What the encoder checks. -/
def Accepted : SyncMessage → Prop
  | .pose m => m.version = 1
  | .chat m => m.validate = .ok ()
  | .control _ => True
  | .signaling m => m.validate = .ok ()

variable [SerdeJson]

def toValue : SyncMessage → JsonValue
  | .pose m => m.toValue
  | .chat m => m.toValue
  | .control m => m.toValue
  | .signaling m => m.toValue

/-- The envelope a message goes into. -/
def envelope (m : SyncMessage) : SyncMessageEnvelope := ⟨1, m.streamKindOf, m.toValue⟩

theorem intoEnvelope_eq_ok {m : SyncMessage} {env : SyncMessageEnvelope} :
    m.intoEnvelope = .ok env ↔ m.Accepted ∧ m.envelope = env := by
  cases m with
  | pose m =>
    simp only [intoEnvelope, SyncMessageEnvelope.fromPose, bind_eq_ok, ensure_eq_ok, pure_eq_ok,
      decide_eq_true_eq, exists_const, Accepted]
    rfl
  | chat m =>
    simp only [intoEnvelope, SyncMessageEnvelope.fromChat, bind_eq_ok, pure_eq_ok, Accepted]
    constructor
    · rintro ⟨⟨⟩, hvalid, henv⟩
      exact ⟨hvalid, henv⟩
    · rintro ⟨hvalid, henv⟩
      exact ⟨(), hvalid, henv⟩
  | control m =>
    simp only [intoEnvelope, SyncMessageEnvelope.fromControl, pure_eq_ok, Accepted, true_and]
    rfl
  | signaling m =>
    simp only [intoEnvelope, SyncMessageEnvelope.fromSignaling, bind_eq_ok, pure_eq_ok, Accepted]
    constructor
    · rintro ⟨⟨⟩, hvalid, henv⟩
      exact ⟨hvalid, henv⟩
    · rintro ⟨hvalid, henv⟩
      exact ⟨(), hvalid, henv⟩

/-- Each decoder checks the kind that `from_envelope` has chosen it by. -/
theorem fromEnvelope_eq_ok {m : SyncMessage} {env : SyncMessageEnvelope} :
    fromEnvelope env = .ok m ↔
      match m with
      | .pose m => PoseMessage.tryFrom env = .ok m
      | .chat m => ChatMessage.tryFrom env = .ok m
      | .control m => ControlMessage.tryFrom env = .ok m
      | .signaling m => SignalingMessage.tryFrom env = .ok m := by
  obtain ⟨version, kind, body⟩ := env
  cases m with
  | pose m => cases kind <;> simp [fromEnvelope, map_eq_ok, PoseMessage.tryFrom_eq_ok]
  | chat m => cases kind <;> simp [fromEnvelope, map_eq_ok, ChatMessage.tryFrom_eq_ok]
  | control m => cases kind <;> simp [fromEnvelope, map_eq_ok, ControlMessage.tryFrom_eq_ok]
  | signaling m => cases kind <;> simp [fromEnvelope, map_eq_ok, SignalingMessage.tryFrom_eq_ok]

theorem lossless_toValue [LawfulFloats] (m : SyncMessage) : m.toValue.Lossless := by
  cases m with
  | pose m => exact m.lossless_toValue
  | chat m => exact m.lossless_toValue
  | control m => exact m.lossless_toValue
  | signaling m => exact m.lossless_toValue

theorem isObject_toValue (m : SyncMessage) : m.toValue.isObject = true := by
  cases m with
  | pose m => rfl
  | chat m => rfl
  | control m => rfl
  | signaling m => cases m <;> rfl

theorem fromEnvelope_envelope [LawfulFloats] {m : SyncMessage} (h : m.Accepted) :
    fromEnvelope m.envelope = .ok m ↔ m.IsFinite := by
  cases m with
  | pose m => exact PoseMessage.fromEnvelope_envelope h
  | chat m => exact iff_of_true (fromEnvelope_eq_ok.mpr (ChatMessage.tryFrom_toValue h)) trivial
  | control m => exact iff_of_true m.fromEnvelope_envelope trivial
  | signaling m =>
    exact iff_of_true (fromEnvelope_eq_ok.mpr (SignalingMessage.tryFrom_envelope h)) trivial

theorem accepted_of_fromEnvelope {m : SyncMessage} {env : SyncMessageEnvelope}
    (h : fromEnvelope env = .ok m) : m.Accepted := by
  have htry := fromEnvelope_eq_ok.mp h
  cases m with
  | pose m =>
    obtain ⟨-, fields, -, -, -, hversion⟩ := PoseMessage.tryFrom_eq_ok.mp htry
    exact hversion
  | chat m =>
    obtain ⟨-, fields, -, -, hvalid⟩ := ChatMessage.tryFrom_eq_ok.mp htry
    exact hvalid
  | control m => trivial
  | signaling m =>
    obtain ⟨-, fields, type, -, -, -, hvalid⟩ := SignalingMessage.tryFrom_eq_ok.mp htry
    exact hvalid

theorem parse_signaling [LosslessJson] {m : SignalingMessage} (h : m.validate = .ok ())
    (hfits : m.envelope.Fits) :
    (TransportPayload.bytes (SerdeJson.toVec m.envelope)).parseSyncMessage =
      .ok (.signaling m) := by
  have hinto : (SyncMessage.signaling m).intoEnvelope = .ok m.envelope :=
    intoEnvelope_eq_ok.mpr ⟨h, rfl⟩
  have hslice := fromSlice_toVec hinto rfl (isObject_toValue (.signaling m)) hfits
  have hmessage : fromEnvelope m.envelope = .ok (.signaling m) :=
    fromEnvelope_eq_ok.mpr (SignalingMessage.tryFrom_envelope h)
  simp only [TransportPayload.parseSyncMessage, hslice, hmessage]

/-- What the sender accepts comes back as it was sent exactly when it is within the limit of the
receiver and its coordinates are finite. -/
theorem received_iff [LosslessJson] [LawfulFloats] {m : SyncMessage} {env : SyncMessageEnvelope}
    (h : m.intoEnvelope = .ok env) :
    (TransportPayload.bytes (SerdeJson.toVec env)).parseSyncMessage = .ok m ↔
      env.Fits ∧ m.IsFinite := by
  obtain ⟨hvalid, rfl⟩ := intoEnvelope_eq_ok.mp h
  by_cases hfits : m.envelope.Fits
  · have hslice := fromSlice_toVec h rfl m.isObject_toValue hfits
    simp only [TransportPayload.parseSyncMessage, hslice, fromEnvelope_envelope hvalid, hfits,
      true_and]
  · simp only [TransportPayload.parseSyncMessage, fromSlice_large hfits, hfits, false_and,
      reduceCtorEq]

end SyncMessage

theorem JsonText.serdeText_lossless : @LosslessJson serdeText := by
  refine @LosslessJson.mk serdeText fun {m env} h => ?_
  have hfloats := serdeText_floats
  obtain ⟨-, rfl⟩ := (@SyncMessage.intoEnvelope_eq_ok serdeText m env).mp h
  exact serdeText_envelope _ (@SyncMessage.lossless_toValue serdeText hfloats m)

section Samples

theorem SyncMessage.received_iff_hello :
    let _ := JsonText.serdeText
    ∃ env, (SyncMessage.chat ⟨1, 0, 1, "alice", "hello"⟩).intoEnvelope = .ok env ∧
      ((TransportPayload.bytes (SerdeJson.toVec env)).parseSyncMessage =
          .ok (.chat ⟨1, 0, 1, "alice", "hello"⟩) ↔
        env.Fits ∧ (SyncMessage.chat ⟨1, 0, 1, "alice", "hello"⟩).IsFinite) := by
  intro _
  have hlossless := JsonText.serdeText_lossless
  have hfloats := JsonText.serdeText_floats
  have henv : (SyncMessage.chat ⟨1, 0, 1, "alice", "hello"⟩).intoEnvelope =
      .ok (SyncMessage.chat ⟨1, 0, 1, "alice", "hello"⟩).envelope := rfl
  exact ⟨_, henv, SyncMessage.received_iff henv⟩

namespace JsonText

theorem length_le_flatMap {α β : Type} {f : α → List β} (hf : ∀ a, 1 ≤ (f a).length)
    (l : List α) : l.length ≤ (l.flatMap f).length := by
  induction l with
  | nil => simp
  | cons a l ih =>
    have := hf a
    simp only [List.flatMap_cons, List.length_cons, List.length_append]
    omega

theorem length_field_le {key : String} {v : JsonValue} {fields : List (String × JsonValue)}
    (h : (key, v) ∈ fields) : (text v).length ≤ (text (.object fields)).length := by
  have hlt := (length_le_listText '}' (fieldTexts fields)).1 (quote key ++ ':' :: text v) (by
    rw [fieldTexts_eq]
    exact List.mem_map.mpr ⟨(key, v), h, rfl⟩)
  simp only [List.length_append, List.length_cons] at hlt
  simp only [text, List.length_cons]
  omega

theorem one_le_escape (c : Char) : 1 ≤ (escape c).length := by
  unfold escape
  split
  · simp
  · split <;> simp

theorem length_sender_le (m : ChatMessage) :
    m.sender.length ≤ (serdeText.toVec m.envelope).length := by
  have hchar : ∀ c : Char, 1 ≤ (String.utf8EncodeChar c).length := by
    intro c
    rw [String.length_utf8EncodeChar]
    exact c.utf8Size_pos
  have hquote : m.sender.length ≤ (text (.string m.sender)).length := by
    have := length_le_flatMap one_le_escape m.sender.toList
    simp only [String.length_toList] at this
    simp only [text, quote, List.length_cons, List.length_append]
    omega
  have hbody : (text (.string m.sender)).length ≤ (text m.toValue).length :=
    length_field_le (show ("sender", JsonValue.string m.sender) ∈ _ by simp)
  have henvelope : (text m.toValue).length ≤ (envelopeText m.envelope).length :=
    length_field_le (show ("body", m.toValue) ∈ _ by simp [ChatMessage.envelope])
  have hbytes := length_le_flatMap hchar (envelopeText m.envelope)
  calc m.sender.length ≤ (envelopeText m.envelope).length :=
        hquote.trans (hbody.trans henvelope)
    _ ≤ (serdeText.toVec m.envelope).length := hbytes

end JsonText

/-- A chat whose sender has a name of `n` characters. -/
def longSender (n : Nat) : ChatMessage := ⟨1, 0, 1, String.ofList (List.replicate n 'a'), "hello"⟩

theorem longSender_valid {n : Nat} (h : 0 < n) : (longSender n).validate = .ok () := by
  have hsender : (longSender n).sender ≠ "" := by
    intro hempty
    have hlen := congrArg String.length hempty
    simp only [longSender, String.length_ofList, List.length_replicate, String.length_empty] at hlen
    omega
  have hmessage : (longSender n).message = "hello" := rfl
  have hversion : (longSender n).version = 1 := rfl
  simp only [ChatMessage.validate, ensure, decide_eq_true hsender, hmessage, hversion]
  rfl

theorem longSender_large {n : Nat} (h : maxEnvelopeBytes < n) :
    ¬ @SyncMessageEnvelope.Fits JsonText.serdeText (longSender n).envelope := by
  intro hfits
  have hlen := (JsonText.length_sender_le (longSender n)).trans hfits
  simp only [longSender, String.length_ofList, List.length_replicate] at hlen
  omega

/-- A pose with an infinite coordinate. -/
def infinitePose : PoseMessage := ⟨1, 0, ⟨(0x7f800000, 0, 0), (0, 0, 0, 0)⟩, none, none⟩

/-- The sender limits neither the length of a sender's name nor the coordinates. -/
theorem SyncMessage.accepted_and_lost :
    let _ := JsonText.serdeText
    (∃ env, (SyncMessage.chat (longSender 65537)).intoEnvelope = .ok env ∧
      (TransportPayload.bytes (SerdeJson.toVec env)).parseSyncMessage =
        .error (.bodyTooLarge (SerdeJson.toVec env).length)) ∧
    (∃ env, (SyncMessage.pose infinitePose).intoEnvelope = .ok env ∧
      (TransportPayload.bytes (SerdeJson.toVec env)).parseSyncMessage =
        .error (.schemaViolation "pose" Reason.invalidPose)) := by
  intro _
  constructor
  · have hvalid := longSender_valid (show 0 < 65537 by decide)
    have hlarge := longSender_large (show maxEnvelopeBytes < 65537 by decide)
    exact ⟨_, SyncMessage.intoEnvelope_eq_ok.mpr ⟨hvalid, rfl⟩, ChatMessage.parse_large hlarge⟩
  · exact ⟨_, rfl, by decide +kernel⟩

end Samples

end Syncer
end Bakopa

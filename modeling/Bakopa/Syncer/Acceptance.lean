import Bakopa.Syncer.Encoding

/-!
# Bakopa.Syncer.Acceptance

Which payloads the receiver takes for which message (`received_iff_written`).

A message of the wire is an object with `v`, `kind` and `body`, and the body is an object with the
fields that the encoder writes. The decoders are lenient in what they skip: unknown fields, absent
optional ones, and the difference between the kinds of one family. They are strict in the rest: a
number in the place of a string, a float in the place of an integer, or an integer that is too
large, is an error.
-/

namespace Bakopa
namespace Syncer

/-- The numbers of an array, with the coordinates they are read as. -/
def JsonValue.Coordinates [SerdeJson] (v : JsonValue) (xs : List F32) : Prop :=
  ∃ ns : List JsonNumber, v = .array (ns.map .number) ∧ ns.map SerdeJson.f32FromNumber = xs

/-- A transform is an object, or the array of its fields. -/
inductive PoseTransform.WrittenAs [SerdeJson] (t : PoseTransform) : JsonValue → Prop where
  | object {fields : List (String × JsonValue)} {p q : JsonValue}
      (hp : fields.lookup "position" = some p) (hq : fields.lookup "rotation" = some q)
      (position : p.Coordinates [t.position.1, t.position.2.1, t.position.2.2])
      (rotation : q.Coordinates
        [t.rotation.1, t.rotation.2.1, t.rotation.2.2.1, t.rotation.2.2.2]) :
      WrittenAs t (.object fields)
  | array {p q : JsonValue}
      (position : p.Coordinates [t.position.1, t.position.2.1, t.position.2.2])
      (rotation : q.Coordinates
        [t.rotation.1, t.rotation.2.1, t.rotation.2.2.1, t.rotation.2.2.2]) :
      WrittenAs t (.array [p, q])

/-- A hand that is not there is left out, or `null`. -/
inductive PoseTransform.HandAs [SerdeJson] : Option PoseTransform → Option JsonValue → Prop where
  | absent : HandAs none none
  | null : HandAs none (some .null)
  | hand {t : PoseTransform} {v : JsonValue} (h : t.WrittenAs v) : HandAs (some t) (some v)

/-- The fields of an object are what the encoder writes. A `null` may be left out, and what else
there is does not matter. -/
def JsonValue.Covers (fields : List (String × JsonValue)) (written : JsonValue) : Prop :=
  ∀ f ∈ written.asObject.getD [],
    fields.lookup f.1 = some f.2 ∨ fields.lookup f.1 = none ∧ f.2 = .null

/-- The body of a message, in an envelope of the given kind. -/
inductive SyncMessage.WrittenAs [SerdeJson] :
    SyncMessage → StreamKind → List (String × JsonValue) → Prop where
  | pose {m : PoseMessage} {fields : List (String × JsonValue)} {head : JsonValue}
      (hversion : fields.lookup "version" = some (.uint m.version.toUInt64))
      (htime : fields.lookup "timestampMicros" = some (.uint m.timestampMicros))
      (hhead : fields.lookup "head" = some head) (head : m.head.WrittenAs head)
      (handL : PoseTransform.HandAs m.handL (fields.lookup "handL"))
      (handR : PoseTransform.HandAs m.handR (fields.lookup "handR")) :
      WrittenAs (.pose m) .pose fields
  | chat {m : ChatMessage} {fields : List (String × JsonValue)}
      (h : JsonValue.Covers fields m.toValue) : WrittenAs (.chat m) .chat fields
  | control {m : ControlMessage} {kind : StreamKind} {fields : List (String × JsonValue)}
      (hkind : kind = .controlJoin ∨ kind = .controlLeave)
      (h : JsonValue.Covers fields m.toValue) : WrittenAs (.control m) kind fields
  | signaling {m : SignalingMessage} {kind : StreamKind} {fields : List (String × JsonValue)}
      (hkind : kind = .signalingOffer ∨ kind = .signalingAnswer ∨ kind = .signalingIce)
      (h : JsonValue.Covers fields m.toValue) : WrittenAs (.signaling m) kind fields

section Receiver

theorem JsonValue.asObject_eq_some {v : JsonValue} {fields : List (String × JsonValue)} :
    v.asObject = some fields ↔ v = .object fields := by
  cases v <;> simp [asObject]

theorem JsonValue.asStr_eq_some {v : JsonValue} {s : String} :
    v.asStr = some s ↔ v = .string s := by
  cases v <;> simp [asStr]

theorem JsonValue.asU64_eq_some {v : JsonValue} {n : UInt64} : v.asU64 = some n ↔ v = .uint n := by
  constructor
  · intro h
    unfold asU64 at h
    split at h
    · cases h
      rfl
    · cases h
  · rintro rfl
    rfl

theorem JsonValue.toUInt_eq_some {w k : Nat} {v : JsonValue} :
    v.toUInt w = some k ↔ ∃ n, v = .uint n ∧ n.toNat < 2 ^ w ∧ n.toNat = k := by
  unfold toUInt
  constructor
  · intro h
    split at h
    · rename_i n hn
      rw [Option.ite_none_right_eq_some, Option.some_inj] at h
      exact ⟨n, asU64_eq_some.mp hn, h⟩
    · cases h
  · rintro ⟨n, rfl, hlt, rfl⟩
    simp only [uint, asU64, hlt, if_true]

theorem JsonValue.toU32_eq_some {v : JsonValue} {n : UInt32} :
    v.toU32 = some n ↔ v = .uint n.toUInt64 := by
  constructor
  · intro h
    obtain ⟨k, hk, rfl⟩ := Option.map_eq_some_iff.mp h
    obtain ⟨u, rfl, hlt, rfl⟩ := toUInt_eq_some.mp hk
    congr 1
    apply UInt64.toNat_inj.mp
    simp only [UInt32.toNat_toUInt64, UInt32.toNat_ofNat']
    exact (Nat.mod_eq_of_lt hlt).symm
  · rintro rfl
    exact ChatMessage.toU32_uint n

theorem JsonValue.toU16_eq_some {v : JsonValue} {n : UInt16} :
    v.toU16 = some n ↔ v = .uint n.toUInt64 := by
  constructor
  · intro h
    obtain ⟨k, hk, rfl⟩ := Option.map_eq_some_iff.mp h
    obtain ⟨u, rfl, hlt, rfl⟩ := toUInt_eq_some.mp hk
    congr 1
    apply UInt64.toNat_inj.mp
    simp only [UInt16.toNat_toUInt64, UInt16.toNat_ofNat']
    exact (Nat.mod_eq_of_lt hlt).symm
  · rintro rfl
    exact SignalingMessage.toU16_uint n

theorem field_iff {α : Type} {fields : List (String × JsonValue)} {key : String}
    {decode : JsonValue → Option α} {a : α} :
    field fields key decode = some a ↔ ∃ v, fields.lookup key = some v ∧ decode v = some a := by
  unfold field
  cases fields.lookup key <;> simp

theorem field_iff_written {α : Type} {fields : List (String × JsonValue)} {key : String}
    {decode : JsonValue → Option α} {toValue : α → JsonValue}
    (h : ∀ v a, decode v = some a ↔ v = toValue a) {a : α} :
    field fields key decode = some a ↔ fields.lookup key = some (toValue a) := by
  simp only [field_iff, h, exists_eq_right]

theorem optionField_some {α : Type} {fields : List (String × JsonValue)} {key : String}
    {decode : JsonValue → Option α} {v : JsonValue} (h : fields.lookup key = some v)
    (hv : v ≠ .null) : optionField fields key decode = (decode v).map some := by
  unfold optionField
  split
  · rename_i hnone
    rw [h] at hnone
    cases hnone
  · rename_i hnull
    rw [h] at hnull
    exact absurd (Option.some_inj.mp hnull) hv
  · rename_i w _ hw
    rw [h] at hw
    rw [Option.some_inj.mp hw]

theorem optionField_iff_written {α : Type} {fields : List (String × JsonValue)} {key : String}
    {decode : JsonValue → Option α} {toValue : α → JsonValue}
    (h : ∀ v a, decode v = some a ↔ v = toValue a) (hnull : ∀ a, toValue a ≠ .null)
    {o : Option α} :
    optionField fields key decode = some o ↔
      fields.lookup key = some (.ofOption toValue o) ∨
      fields.lookup key = none ∧ JsonValue.ofOption toValue o = .null := by
  have hnone : JsonValue.ofOption toValue o = .null ↔ o = none := by
    cases o with
    | none => exact iff_of_true rfl rfl
    | some a => exact iff_of_false (hnull a) (by simp)
  rw [hnone]
  cases hl : fields.lookup key with
  | none => simp [optionField, hl, eq_comm]
  | some v =>
    by_cases hv : v = .null
    · subst hv
      simp only [optionField, hl, Option.some_inj, reduceCtorEq, false_and, or_false]
      rw [@eq_comm _ JsonValue.null, hnone, eq_comm]
    · rw [optionField_some hl hv]
      simp only [Option.map_eq_some_iff, h, Option.some_inj, reduceCtorEq, false_and, or_false]
      cases o with
      | none => simp [JsonValue.ofOption, hv]
      | some a => simp [JsonValue.ofOption]

theorem optionStr_iff {fields : List (String × JsonValue)} {key : String} {o : Option String} :
    optionField fields key JsonValue.asStr = some o ↔
      fields.lookup key = some (.ofOption .string o) ∨
      fields.lookup key = none ∧ JsonValue.ofOption .string o = .null :=
  optionField_iff_written (fun _ _ => JsonValue.asStr_eq_some) fun _ => by simp

theorem JsonValue.covers_object {fields written : List (String × JsonValue)} :
    Covers fields (.object written) ↔ ∀ f ∈ written,
      fields.lookup f.1 = some f.2 ∨ fields.lookup f.1 = none ∧ f.2 = .null := Iff.rfl

theorem ChatMessage.decode_eq_some {fields : List (String × JsonValue)} {m : ChatMessage} :
    decode fields = some m ↔ JsonValue.Covers fields m.toValue := by
  obtain ⟨version, time, sequence, sender, message⟩ := m
  simp only [decode, Option.bind_eq_bind, Option.bind_eq_some_iff, Option.pure_def, Option.some_inj,
    field_iff_written fun _ _ => JsonValue.toU32_eq_some,
    field_iff_written fun _ _ => JsonValue.asU64_eq_some,
    field_iff_written fun _ _ => JsonValue.asStr_eq_some, toValue, JsonValue.covers_object,
    List.forall_mem_cons, List.not_mem_nil, JsonValue.uint, reduceCtorEq, and_false, or_false]
  constructor
  · rintro ⟨_, hversion, _, htime, _, hsequence, _, hsender, _, hmessage, heq⟩
    cases heq
    exact ⟨hmessage, hsender, hsequence, htime, hversion, fun _ h => h.elim⟩
  · rintro ⟨hmessage, hsender, hsequence, htime, hversion, -⟩
    exact ⟨_, hversion, _, htime, _, hsequence, _, hsender, _, hmessage, rfl⟩

theorem ControlMessage.decodePayload_eq_some {fields : List (String × JsonValue)}
    {p : ControlPayload} {tag : String} :
    decodePayload fields = some p ∧ fields.lookup "type" = some (.string tag) ↔
      JsonValue.Covers fields (.object [
        ("participantId", .string p.participantId),
        ("reason", .ofOption .string p.reason),
        ("reconnectToken", .ofOption .string p.reconnectToken),
        ("type", .string tag)]) := by
  obtain ⟨id, token, reason⟩ := p
  simp only [decodePayload, Option.bind_eq_bind, Option.bind_eq_some_iff, Option.pure_def,
    Option.some_inj, field_iff_written fun _ _ => JsonValue.asStr_eq_some, optionStr_iff,
    JsonValue.covers_object, List.forall_mem_cons, List.not_mem_nil, reduceCtorEq, and_false,
    or_false]
  constructor
  · rintro ⟨⟨_, hid, _, htoken, _, hreason, heq⟩, htag⟩
    cases heq
    exact ⟨hid, hreason, htoken, htag, fun _ h => h.elim⟩
  · rintro ⟨hid, hreason, htoken, htag, -⟩
    exact ⟨⟨_, hid, _, htoken, _, hreason, rfl⟩, htag⟩

theorem ControlMessage.decode_eq_some {fields : List (String × JsonValue)} {m : ControlMessage} :
    decode fields = some m ↔ JsonValue.Covers fields m.toValue := by
  rw [toValue, ← decodePayload_eq_some]
  simp only [decode, Option.bind_eq_bind, Option.bind_eq_some_iff,
    field_iff_written fun _ _ => JsonValue.asStr_eq_some]
  constructor
  · rintro ⟨tag, htag, h⟩
    split_ifs at h with hjoin hleave
    · obtain ⟨p, hp, rfl⟩ := Option.map_eq_some_iff.mp h
      subst hjoin
      exact ⟨hp, htag⟩
    · obtain ⟨p, hp, rfl⟩ := Option.map_eq_some_iff.mp h
      subst hleave
      exact ⟨hp, htag⟩
  · rintro ⟨hp, htag⟩
    refine ⟨_, htag, ?_⟩
    cases m with
    | join p =>
      simp only [type, if_true]
      exact Option.map_eq_some_iff.mpr ⟨p, hp, rfl⟩
    | leave p =>
      simp only [type, String.reduceEq, if_false, if_true]
      exact Option.map_eq_some_iff.mpr ⟨p, hp, rfl⟩

theorem JsonValue.Covers.isSome {fields written : List (String × JsonValue)}
    (h : Covers fields (.object written)) {key : String} {v : JsonValue} (hmem : (key, v) ∈ written)
    (hv : v ≠ .null) : (fields.lookup key).isSome = true := by
  rcases h _ hmem with hlookup | ⟨-, hnull⟩
  · rw [hlookup]
    rfl
  · exact absurd hnull hv

namespace SignalingMessage

theorem offer_decode_eq_some {fields : List (String × JsonValue)} {m : SignalingOffer} :
    SignalingOffer.decode fields = some m ∧ fields.lookup "type" = some (.string "offer") ↔
      JsonValue.Covers fields (SignalingMessage.offer m).toValue := by
  obtain ⟨version, roomId, participantId, authToken, icePolicy, sdp⟩ := m
  simp only [SignalingOffer.decode, Option.bind_eq_bind, Option.bind_eq_some_iff, Option.pure_def,
    Option.some_inj, field_iff_written fun _ _ => JsonValue.toU32_eq_some,
    field_iff_written fun _ _ => JsonValue.asStr_eq_some, toValue, JsonValue.covers_object,
    List.forall_mem_cons, List.not_mem_nil, JsonValue.uint, reduceCtorEq, and_false, or_false]
  constructor
  · rintro ⟨⟨_, hversion, _, hroom, _, hid, _, htoken, _, hpolicy, _, hsdp, heq⟩, htag⟩
    cases heq
    exact ⟨htoken, hpolicy, hid, hroom, hsdp, htag, hversion, fun _ h => h.elim⟩
  · rintro ⟨htoken, hpolicy, hid, hroom, hsdp, htag, hversion, -⟩
    exact ⟨⟨_, hversion, _, hroom, _, hid, _, htoken, _, hpolicy, _, hsdp, rfl⟩, htag⟩

theorem answer_decode_eq_some {fields : List (String × JsonValue)} {m : SignalingAnswer} :
    SignalingAnswer.decode fields = some m ∧ fields.lookup "type" = some (.string "answer") ↔
      JsonValue.Covers fields (SignalingMessage.answer m).toValue := by
  obtain ⟨version, roomId, participantId, authToken, sdp⟩ := m
  simp only [SignalingAnswer.decode, Option.bind_eq_bind, Option.bind_eq_some_iff, Option.pure_def,
    Option.some_inj, field_iff_written fun _ _ => JsonValue.toU32_eq_some,
    field_iff_written fun _ _ => JsonValue.asStr_eq_some, toValue, JsonValue.covers_object,
    List.forall_mem_cons, List.not_mem_nil, JsonValue.uint, reduceCtorEq, and_false, or_false]
  constructor
  · rintro ⟨⟨_, hversion, _, hroom, _, hid, _, htoken, _, hsdp, heq⟩, htag⟩
    cases heq
    exact ⟨htoken, hid, hroom, hsdp, htag, hversion, fun _ h => h.elim⟩
  · rintro ⟨htoken, hid, hroom, hsdp, htag, hversion, -⟩
    exact ⟨⟨_, hversion, _, hroom, _, hid, _, htoken, _, hsdp, rfl⟩, htag⟩

theorem ice_decode_eq_some {fields : List (String × JsonValue)} {m : SignalingIce} :
    SignalingIce.decode fields = some m ∧ fields.lookup "type" = some (.string "ice") ↔
      JsonValue.Covers fields (SignalingMessage.ice m).toValue := by
  obtain ⟨version, roomId, participantId, authToken, candidate, sdpMid, sdpMlineIndex⟩ := m
  have hindex : ∀ n : UInt16, JsonValue.uint n.toUInt64 ≠ .null := fun n => by simp [JsonValue.uint]
  simp only [SignalingIce.decode, Option.bind_eq_bind, Option.bind_eq_some_iff, Option.pure_def,
    Option.some_inj, field_iff_written fun _ _ => JsonValue.toU32_eq_some,
    field_iff_written fun _ _ => JsonValue.asStr_eq_some, optionStr_iff,
    optionField_iff_written (fun _ _ => JsonValue.toU16_eq_some) hindex, toValue,
    JsonValue.covers_object, List.forall_mem_cons, List.not_mem_nil]
  constructor
  · rintro ⟨⟨_, hversion, _, hroom, _, hid, _, htoken, _, hcandidate, _, hmid, _, hline, heq⟩, htag⟩
    cases heq
    exact ⟨.inl htoken, .inl hcandidate, .inl hid, .inl hroom, hmid, hline, .inl htag,
      .inl hversion, fun _ h => h.elim⟩
  · simp only [JsonValue.uint, reduceCtorEq, and_false, or_false]
    rintro ⟨htoken, hcandidate, hid, hroom, hmid, hline, htag, hversion, -⟩
    exact ⟨⟨_, hversion, _, hroom, _, hid, _, htoken, _, hcandidate, _, hmid, _, hline, rfl⟩, htag⟩

theorem decode_eq_ok {fields : List (String × JsonValue)} {type : String} {m : SignalingMessage} :
    fields.lookup "type" = some (.string type) ∧ decode fields type = .ok m ↔
      type = m.type ∧ JsonValue.Covers fields m.toValue := by
  constructor
  · rintro ⟨htag, h⟩
    unfold decode at h
    split_ifs at h with hoffer hanswer hice
    · subst hoffer
      simp only [bind_eq_ok, pure_eq_ok, require_eq_ok] at h
      obtain ⟨_, -, _, -, _, -, _, -, m, hm, rfl⟩ := h
      exact ⟨rfl, offer_decode_eq_some.mp ⟨hm, htag⟩⟩
    · subst hanswer
      simp only [bind_eq_ok, pure_eq_ok, require_eq_ok] at h
      obtain ⟨_, -, _, -, _, -, m, hm, rfl⟩ := h
      exact ⟨rfl, answer_decode_eq_some.mp ⟨hm, htag⟩⟩
    · subst hice
      simp only [bind_eq_ok, pure_eq_ok, require_eq_ok] at h
      obtain ⟨_, -, _, -, _, -, m, hm, rfl⟩ := h
      exact ⟨rfl, ice_decode_eq_some.mp ⟨hm, htag⟩⟩
  · rintro ⟨rfl, h⟩
    have hhas : ∀ key s reason, (key, JsonValue.string s) ∈ m.toValue.asObject.getD [] →
        ensureField fields key reason = .ok () := by
      intro key s reason hmem
      obtain ⟨written, hwritten⟩ : ∃ written, m.toValue = .object written := by
        cases m <;> exact ⟨_, rfl⟩
      rw [hwritten] at h hmem
      exact ensure_eq_ok.mpr (h.isSome hmem (by simp))
    cases m with
    | offer m =>
      obtain ⟨hm, htag⟩ := offer_decode_eq_some.mpr h
      refine ⟨htag, ?_⟩
      simp only [decode, type, if_true, hm, require_some, ok_bind]
      rw [hhas "roomId" m.roomId _ (by simp [toValue, JsonValue.asObject]),
        hhas "authToken" m.authToken _ (by simp [toValue, JsonValue.asObject]),
        hhas "icePolicy" m.icePolicy _ (by simp [toValue, JsonValue.asObject]),
        hhas "sdp" m.sdp _ (by simp [toValue, JsonValue.asObject])]
      rfl
    | answer m =>
      obtain ⟨hm, htag⟩ := answer_decode_eq_some.mpr h
      refine ⟨htag, ?_⟩
      simp only [decode, type, String.reduceEq, if_false, if_true, hm, require_some, ok_bind]
      rw [hhas "roomId" m.roomId _ (by simp [toValue, JsonValue.asObject]),
        hhas "authToken" m.authToken _ (by simp [toValue, JsonValue.asObject]),
        hhas "sdp" m.sdp _ (by simp [toValue, JsonValue.asObject])]
      rfl
    | ice m =>
      obtain ⟨hm, htag⟩ := ice_decode_eq_some.mpr h
      refine ⟨htag, ?_⟩
      simp only [decode, type, String.reduceEq, if_false, if_true, hm, require_some, ok_bind]
      rw [hhas "roomId" m.roomId _ (by simp [toValue, JsonValue.asObject]),
        hhas "authToken" m.authToken _ (by simp [toValue, JsonValue.asObject]),
        hhas "candidate" m.candidate _ (by simp [toValue, JsonValue.asObject])]
      rfl

end SignalingMessage

theorem StreamKind.parse_eq_ok {value : String} {kind : StreamKind} :
    parse value = .ok kind ↔ value = kind.asStr := by
  constructor
  · intro h
    unfold parse at h
    split_ifs at h <;> cases h <;> assumption
  · rintro rfl
    exact parse_asStr kind

variable [SerdeJson]

theorem mapM_eq_some {items : List JsonValue} {xs : List F32} :
    items.mapM f32FromValue = some xs ↔ (JsonValue.array items).Coordinates xs := by
  simp only [JsonValue.Coordinates, JsonValue.array.injEq]
  induction items generalizing xs with
  | nil =>
    rw [List.mapM_nil]
    constructor
    · intro h
      cases h
      exact ⟨[], rfl, rfl⟩
    · rintro ⟨ns, hns, rfl⟩
      rw [List.map_eq_nil_iff.mp hns.symm]
      rfl
  | cons v items ih =>
    simp only [List.mapM_cons, Option.bind_eq_bind, Option.bind_eq_some_iff, Option.pure_def,
      Option.some_inj]
    constructor
    · rintro ⟨x, hx, xs, hxs, rfl⟩
      obtain ⟨ns, rfl, rfl⟩ := ih.mp hxs
      cases v with
      | number n =>
        cases hx
        exact ⟨n :: ns, rfl, rfl⟩
      | _ => cases hx
    · rintro ⟨ns, hns, rfl⟩
      obtain ⟨n, ns, rfl, rfl, rfl⟩ := List.map_eq_cons_iff.mp hns.symm
      exact ⟨_, rfl, _, ih.mpr ⟨ns, rfl, rfl⟩, rfl⟩

namespace PoseTransform

theorem decodePosition_eq_some {v : JsonValue} {p : F32 × F32 × F32} :
    decodePosition v = some p ↔ v.Coordinates [p.1, p.2.1, p.2.2] := by
  cases v with
  | array items =>
    rw [← mapM_eq_some, decodePosition]
    constructor
    · intro h
      split at h
      · rename_i hitems
        cases h
        exact hitems
      · cases h
    · intro h
      rw [h]
  | _ =>
    refine iff_of_false (by simp [decodePosition]) ?_
    rintro ⟨ns, hns, -⟩
    cases hns

theorem decodeRotation_eq_some {v : JsonValue} {q : F32 × F32 × F32 × F32} :
    decodeRotation v = some q ↔ v.Coordinates [q.1, q.2.1, q.2.2.1, q.2.2.2] := by
  cases v with
  | array items =>
    rw [← mapM_eq_some, decodeRotation]
    constructor
    · intro h
      split at h
      · rename_i hitems
        cases h
        exact hitems
      · cases h
    · intro h
      rw [h]
  | _ =>
    refine iff_of_false (by simp [decodeRotation]) ?_
    rintro ⟨ns, hns, -⟩
    cases hns

theorem fromValue_eq_some {v : JsonValue} {t : PoseTransform} :
    fromValue v = some t ↔ t.WrittenAs v := by
  constructor
  · intro h
    unfold fromValue at h
    split at h
    · simp only [Option.bind_eq_bind, Option.bind_eq_some_iff, Option.pure_def, Option.some_inj,
        field_iff, decodePosition_eq_some, decodeRotation_eq_some] at h
      obtain ⟨position, ⟨p, hp, hposition⟩, rotation, ⟨q, hq, hrotation⟩, rfl⟩ := h
      exact .object hp hq hposition hrotation
    · simp only [Option.bind_eq_bind, Option.bind_eq_some_iff, Option.pure_def, Option.some_inj,
        decodePosition_eq_some, decodeRotation_eq_some] at h
      obtain ⟨position, hposition, rotation, hrotation, rfl⟩ := h
      exact .array hposition hrotation
    · cases h
  · intro h
    cases h with
    | object hp hq position rotation =>
      simp only [fromValue, field, hp, hq, decodePosition_eq_some.mpr position,
        decodeRotation_eq_some.mpr rotation]
      rfl
    | array position rotation =>
      simp only [fromValue, decodePosition_eq_some.mpr position,
        decodeRotation_eq_some.mpr rotation]
      rfl

theorem optionField_eq_some {fields : List (String × JsonValue)} {key : String}
    {o : Option PoseTransform} :
    optionField fields key fromValue = some o ↔ HandAs o (fields.lookup key) := by
  constructor
  · intro h
    cases hl : fields.lookup key with
    | none =>
      simp only [optionField, hl, Option.some_inj] at h
      subst h
      exact .absent
    | some v =>
      by_cases hv : v = .null
      · subst hv
        simp only [optionField, hl, Option.some_inj] at h
        subst h
        exact .null
      · rw [optionField_some hl hv] at h
        obtain ⟨t, ht, rfl⟩ := Option.map_eq_some_iff.mp h
        exact .hand (fromValue_eq_some.mp ht)
  · intro h
    generalize hl : fields.lookup key = o' at h
    cases h with
    | absent => simp only [optionField, hl]
    | null => simp only [optionField, hl]
    | hand h =>
      rw [optionField_some hl (by rintro rfl; cases h), fromValue_eq_some.mpr h]
      rfl

end PoseTransform

theorem PoseMessage.decode_eq_some {fields : List (String × JsonValue)} {m : PoseMessage} :
    decode fields = some m ↔ SyncMessage.WrittenAs (.pose m) .pose fields := by
  simp only [decode, Option.bind_eq_bind, Option.bind_eq_some_iff, Option.pure_def, Option.some_inj,
    field_iff_written fun _ _ => JsonValue.toU32_eq_some,
    field_iff_written fun _ _ => JsonValue.asU64_eq_some, field_iff,
    PoseTransform.fromValue_eq_some, PoseTransform.optionField_eq_some]
  constructor
  · rintro ⟨version, hversion, time, htime, head, ⟨v, hv, hhead⟩, handL, hL, handR, hR, rfl⟩
    exact .pose hversion htime hv hhead hL hR
  · intro h
    cases h with
    | pose hversion htime hv hhead hL hR =>
      exact ⟨_, hversion, _, htime, _, ⟨_, hv, hhead⟩, _, hL, _, hR, rfl⟩

namespace SyncMessage

theorem fromEnvelope_eq_ok_iff {m : SyncMessage} {env : SyncMessageEnvelope} :
    fromEnvelope env = .ok m ↔
      m.Accepted ∧ ∃ fields, env.body = .object fields ∧ m.WrittenAs env.kind fields := by
  rw [fromEnvelope_eq_ok]
  obtain ⟨version, kind, body⟩ := env
  cases m with
  | pose m =>
    simp only [PoseMessage.tryFrom_eq_ok, JsonValue.asObject_eq_some, PoseMessage.decode_eq_some,
      Accepted]
    constructor
    · rintro ⟨rfl, fields, hbody, -, hwritten, hversion⟩
      exact ⟨hversion, fields, hbody, hwritten⟩
    · rintro ⟨hversion, fields, hbody, hwritten⟩
      cases hwritten with
      | pose hv htime hhead head hL hR =>
        refine ⟨rfl, fields, hbody, ?_, .pose hv htime hhead head hL hR, hversion⟩
        rw [hhead]
        rfl
  | chat m =>
    simp only [ChatMessage.tryFrom_eq_ok, JsonValue.asObject_eq_some, ChatMessage.decode_eq_some,
      Accepted]
    constructor
    · rintro ⟨rfl, fields, hbody, hcovers, hvalid⟩
      exact ⟨hvalid, fields, hbody, .chat hcovers⟩
    · rintro ⟨hvalid, fields, hbody, hwritten⟩
      cases hwritten with
      | chat hcovers => exact ⟨rfl, fields, hbody, hcovers, hvalid⟩
  | control m =>
    simp only [ControlMessage.tryFrom_eq_ok, JsonValue.asObject_eq_some,
      ControlMessage.decode_eq_some, Accepted, true_and]
    constructor
    · rintro ⟨hkind, fields, hbody, hcovers⟩
      exact ⟨fields, hbody, .control hkind hcovers⟩
    · rintro ⟨fields, hbody, hwritten⟩
      cases hwritten with
      | control hkind hcovers => exact ⟨hkind, fields, hbody, hcovers⟩
  | signaling m =>
    simp only [SignalingMessage.tryFrom_eq_ok, JsonValue.asObject_eq_some,
      field_iff_written fun _ _ => JsonValue.asStr_eq_some, Accepted]
    constructor
    · rintro ⟨hkind, fields, type, hbody, htag, hdecode, hvalid⟩
      obtain ⟨-, hcovers⟩ := SignalingMessage.decode_eq_ok.mp ⟨htag, hdecode⟩
      exact ⟨hvalid, fields, hbody, .signaling hkind hcovers⟩
    · rintro ⟨hvalid, fields, hbody, hwritten⟩
      cases hwritten with
      | signaling hkind hcovers =>
        obtain ⟨htag, hdecode⟩ := SignalingMessage.decode_eq_ok.mpr ⟨rfl, hcovers⟩
        exact ⟨hkind, fields, m.type, hbody, htag, hdecode, hvalid⟩

end SyncMessage

theorem SyncMessageEnvelope.fromSlice_eq_ok {bytes : List UInt8} {env : SyncMessageEnvelope} :
    fromSlice bytes = .ok env ↔ bytes.length ≤ maxEnvelopeBytes ∧ env.version = 1 ∧
      env.body.isObject = true ∧ ∃ fields, SerdeJson.fromSlice bytes = some (.object fields) ∧
        fields.lookup "v" = some (.uint 1) ∧
        fields.lookup "kind" = some (.string env.kind.asStr) ∧
        fields.lookup "body" = some env.body := by
  simp only [fromSlice, bind_eq_ok, ensure_eq_ok, require_eq_ok, pure_eq_ok, decide_eq_true_eq,
    exists_const, JsonValue.asObject_eq_some, JsonValue.toU32_eq_some, JsonValue.asStr_eq_some,
    StreamKind.parse_eq_ok]
  constructor
  · rintro ⟨hlen, raw, hraw, fields, rfl, v, hv, version, rfl, rfl, kindValue, hkind, kindStr, rfl,
      kind, rfl, body, hbody, hobject, rfl⟩
    exact ⟨hlen, rfl, hobject, fields, hraw, hv, hkind, hbody⟩
  · obtain ⟨version, kind, body⟩ := env
    rintro ⟨hlen, rfl, hobject, fields, hraw, hv, hkind, hbody⟩
    exact ⟨hlen, _, hraw, fields, rfl, _, hv, 1, rfl, rfl, _, hkind, _, rfl, kind, rfl, body, hbody,
      hobject, rfl⟩

/-- Which payloads are taken for a message: those whose bytes are at most 64 KiB of an object of
version 1, with a kind of the family of the message, and with a body that has every field the
encoder writes for it. The message is always one that the encoder takes. -/
theorem SyncMessage.received_iff_written {payload : TransportPayload} {m : SyncMessage} :
    payload.parseSyncMessage = .ok m ↔
      m.Accepted ∧ ∃ bytes fields kind body, payload = .bytes bytes ∧
        bytes.length ≤ maxEnvelopeBytes ∧ SerdeJson.fromSlice bytes = some (.object fields) ∧
        JsonValue.Covers fields (SyncMessageEnvelope.toValue ⟨1, kind, .object body⟩) ∧
        m.WrittenAs kind body := by
  cases payload with
  | audioFrame frame => simp [TransportPayload.parseSyncMessage]
  | bytes bytes =>
    have hparse : (TransportPayload.bytes bytes).parseSyncMessage = .ok m ↔
        ∃ env, SyncMessageEnvelope.fromSlice bytes = .ok env ∧ fromEnvelope env = .ok m := by
      simp only [TransportPayload.parseSyncMessage]
      cases SyncMessageEnvelope.fromSlice bytes <;> simp
    simp only [hparse, SyncMessageEnvelope.fromSlice_eq_ok, fromEnvelope_eq_ok_iff,
      SyncMessageEnvelope.toValue, JsonValue.covers_object, List.forall_mem_cons, List.not_mem_nil,
      JsonValue.uint, reduceCtorEq, and_false, or_false]
    constructor
    · rintro ⟨env, ⟨hlen, -, -, fields, hraw, hv, hkind, hbody⟩, haccepted, body, hobject, hwritten⟩
      rw [hobject] at hbody
      exact ⟨haccepted, bytes, fields, env.kind, body, rfl, hlen, hraw,
        ⟨hbody, hkind, hv, fun _ h => h.elim⟩, hwritten⟩
    · rintro ⟨haccepted, _, fields, kind, body, heq, hlen, hraw, ⟨hbody, hkind, hv, -⟩, hwritten⟩
      cases heq
      exact ⟨⟨1, kind, .object body⟩, ⟨hlen, rfl, rfl, fields, hraw, hv, hkind, hbody⟩, haccepted,
        body, rfl, hwritten⟩

end Receiver

end Syncer
end Bakopa

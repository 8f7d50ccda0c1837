import Bakopa.Syncer.Encoding

/-!
# Bakopa.Syncer.Reencoding

What an envelope decodes to goes back into an envelope of the same kind, and decodes again, exactly
when the tag in the body is the one the kind stands for and the coordinates in the body are finite
as `f32` (`reencoded_iff`).
-/

namespace Bakopa
namespace Syncer

/-- The tag of the body that the kind of an envelope stands for. -/
def StreamKind.tag : StreamKind → Option String
  | .controlJoin => some "join"
  | .controlLeave => some "leave"
  | .signalingOffer => some "offer"
  | .signalingAnswer => some "answer"
  | .signalingIce => some "ice"
  | .pose | .chat | .voice => none

def JsonValue.numbers : JsonValue → List JsonNumber
  | .array items => items.filterMap fun
    | .number n => some n
    | _ => none
  | _ => []

/-- The coordinates in a transform, as an object or as an array of its fields. -/
def JsonValue.transformNumbers : JsonValue → List JsonNumber
  | .object fields => ["position", "rotation"].flatMap fun key =>
    (fields.lookup key).toList.flatMap numbers
  | .array items => items.flatMap numbers
  | _ => []

def JsonValue.poseNumbers : JsonValue → List JsonNumber
  | .object fields => ["head", "handL", "handR"].flatMap fun key =>
    (fields.lookup key).toList.flatMap transformNumbers
  | _ => []

namespace SyncMessageEnvelope

def bodyTag (env : SyncMessageEnvelope) : Option String :=
  env.body.asObject.bind fun fields => field fields "type" JsonValue.asStr

/-- Envelope and body agree on what the message is. -/
def TagAgrees (env : SyncMessageEnvelope) : Prop := ∀ tag ∈ env.kind.tag, env.bodyTag = some tag

/-- The coordinates in the body of a pose do not overflow an `f32`. -/
def FiniteNumbers [SerdeJson] (env : SyncMessageEnvelope) : Prop :=
  env.kind = .pose → ∀ n ∈ env.body.poseNumbers, F32.IsFinite (SerdeJson.f32FromNumber n)

end SyncMessageEnvelope

section Tags

theorem ControlMessage.type_of_decode {fields : List (String × JsonValue)} {m : ControlMessage}
    (h : decode fields = some m) : field fields "type" JsonValue.asStr = some m.type := by
  simp only [decode, Option.bind_eq_bind, Option.bind_eq_some_iff] at h
  obtain ⟨tag, htag, h⟩ := h
  split_ifs at h with hjoin hleave
  · obtain ⟨p, -, rfl⟩ := Option.map_eq_some_iff.mp h
    rw [htag, hjoin]
    rfl
  · obtain ⟨p, -, rfl⟩ := Option.map_eq_some_iff.mp h
    rw [htag, hleave]
    rfl

theorem SignalingMessage.type_of_decode {fields : List (String × JsonValue)} {type : String}
    {m : SignalingMessage} (h : decode fields type = .ok m) : m.type = type := by
  unfold decode at h
  split_ifs at h with hoffer hanswer hice
  · simp only [bind_eq_ok, pure_eq_ok] at h
    obtain ⟨_, -, _, -, _, -, _, -, _, -, rfl⟩ := h
    exact hoffer.symm
  · simp only [bind_eq_ok, pure_eq_ok] at h
    obtain ⟨_, -, _, -, _, -, _, -, rfl⟩ := h
    exact hanswer.symm
  · simp only [bind_eq_ok, pure_eq_ok] at h
    obtain ⟨_, -, _, -, _, -, _, -, rfl⟩ := h
    exact hice.symm

/-- `from_envelope` looks at the kind of the envelope for the family of the message, and at the tag
in the body for the rest. -/
theorem SyncMessage.streamKindOf_iff [SerdeJson] {env : SyncMessageEnvelope} {m : SyncMessage}
    (h : fromEnvelope env = .ok m) : m.streamKindOf = env.kind ↔ env.TagAgrees := by
  have htry := fromEnvelope_eq_ok.mp h
  cases m with
  | pose m =>
    have hkind := (PoseMessage.tryFrom_eq_ok.mp htry).1
    simp [streamKindOf, SyncMessageEnvelope.TagAgrees, hkind, StreamKind.tag]
  | chat m =>
    have hkind := (ChatMessage.tryFrom_eq_ok.mp htry).1
    simp [streamKindOf, SyncMessageEnvelope.TagAgrees, hkind, StreamKind.tag]
  | control m =>
    obtain ⟨hkind, fields, hobject, hdecode⟩ := ControlMessage.tryFrom_eq_ok.mp htry
    have htag : env.bodyTag = some m.type := by
      rw [SyncMessageEnvelope.bodyTag, hobject]
      exact ControlMessage.type_of_decode hdecode
    simp only [SyncMessageEnvelope.TagAgrees, htag, streamKindOf]
    rcases hkind with hkind | hkind <;> rw [hkind] <;>
      cases m <;> simp [ControlMessage.kindStream, ControlMessage.type, StreamKind.tag]
  | signaling m =>
    obtain ⟨hkind, fields, type, hobject, htype, hdecode, -⟩ :=
      SignalingMessage.tryFrom_eq_ok.mp htry
    have htag : env.bodyTag = some m.type := by
      rw [SyncMessageEnvelope.bodyTag, hobject, SignalingMessage.type_of_decode hdecode]
      exact htype
    simp only [SyncMessageEnvelope.TagAgrees, htag, streamKindOf]
    rcases hkind with hkind | hkind | hkind <;> rw [hkind] <;>
      cases m <;> simp [SignalingMessage.kindStream, SignalingMessage.type, StreamKind.tag]

end Tags

section Numbers

theorem field_eq_some {α : Type} {fields : List (String × JsonValue)} {key : String}
    {decode : JsonValue → Option α} {a : α} (h : field fields key decode = some a) :
    ∃ v, fields.lookup key = some v ∧ decode v = some a := by
  unfold field at h
  split at h
  · rename_i v hv
    exact ⟨v, hv, h⟩
  · cases h

variable [SerdeJson]

theorem numbers_of_mapM {items : List JsonValue} {xs : List F32}
    (h : items.mapM f32FromValue = some xs) :
    (JsonValue.array items).numbers.map SerdeJson.f32FromNumber = xs := by
  induction items generalizing xs with
  | nil =>
    cases h
    rfl
  | cons v items ih =>
    simp only [List.mapM_cons, Option.bind_eq_bind, Option.bind_eq_some_iff, Option.pure_def,
      Option.some_inj] at h
    obtain ⟨x, hx, xs, hxs, rfl⟩ := h
    have ih := ih hxs
    cases v with
    | number n =>
      cases hx
      simp only [JsonValue.numbers, List.filterMap_cons, List.map_cons] at ih ⊢
      rw [ih]
    | _ => cases hx

theorem numbers_of_decodePosition {v : JsonValue} {p : F32 × F32 × F32}
    (h : PoseTransform.decodePosition v = some p) :
    v.numbers.map SerdeJson.f32FromNumber = [p.1, p.2.1, p.2.2] := by
  unfold PoseTransform.decodePosition at h
  split at h
  · split at h
    · rename_i hitems
      cases h
      exact numbers_of_mapM hitems
    · cases h
  · cases h

theorem numbers_of_decodeRotation {v : JsonValue} {q : F32 × F32 × F32 × F32}
    (h : PoseTransform.decodeRotation v = some q) :
    v.numbers.map SerdeJson.f32FromNumber = [q.1, q.2.1, q.2.2.1, q.2.2.2] := by
  unfold PoseTransform.decodeRotation at h
  split at h
  · split at h
    · rename_i hitems
      cases h
      exact numbers_of_mapM hitems
    · cases h
  · cases h

theorem transformNumbers_of_fromValue {v : JsonValue} {t : PoseTransform}
    (h : PoseTransform.fromValue v = some t) :
    v.transformNumbers.map SerdeJson.f32FromNumber = t.coordinates := by
  unfold PoseTransform.fromValue at h
  split at h
  · simp only [Option.bind_eq_bind, Option.bind_eq_some_iff, Option.pure_def,
      Option.some_inj] at h
    obtain ⟨position, hposition, rotation, hrotation, rfl⟩ := h
    obtain ⟨pv, hpv, hp⟩ := field_eq_some hposition
    obtain ⟨rv, hrv, hr⟩ := field_eq_some hrotation
    simp only [JsonValue.transformNumbers, List.flatMap_cons, List.flatMap_nil, hpv, hrv,
      Option.toList_some, List.append_nil, List.map_append, numbers_of_decodePosition hp,
      numbers_of_decodeRotation hr]
    rfl
  · simp only [Option.bind_eq_bind, Option.bind_eq_some_iff, Option.pure_def,
      Option.some_inj] at h
    obtain ⟨position, hp, rotation, hr, rfl⟩ := h
    simp only [JsonValue.transformNumbers, List.flatMap_cons, List.flatMap_nil, List.append_nil,
      List.map_append, numbers_of_decodePosition hp, numbers_of_decodeRotation hr]
    rfl
  · cases h

theorem transformNumbers_of_optionField {fields : List (String × JsonValue)} {key : String}
    {o : Option PoseTransform} (h : optionField fields key PoseTransform.fromValue = some o) :
    ((fields.lookup key).toList.flatMap JsonValue.transformNumbers).map SerdeJson.f32FromNumber =
      o.toList.flatMap PoseTransform.coordinates := by
  unfold optionField at h
  split at h
  · rename_i hlookup
    cases h
    rw [hlookup]
    rfl
  · rename_i hlookup
    cases h
    rw [hlookup]
    rfl
  · rename_i v _ hlookup
    obtain ⟨t, ht, rfl⟩ := Option.map_eq_some_iff.mp h
    rw [hlookup]
    simp only [Option.toList_some, List.flatMap_cons, List.flatMap_nil, List.append_nil,
      transformNumbers_of_fromValue ht]

theorem poseNumbers_of_decode {fields : List (String × JsonValue)} {m : PoseMessage}
    (h : PoseMessage.decode fields = some m) :
    (JsonValue.object fields).poseNumbers.map SerdeJson.f32FromNumber =
      m.transforms.flatMap PoseTransform.coordinates := by
  simp only [PoseMessage.decode, Option.bind_eq_bind, Option.bind_eq_some_iff, Option.pure_def,
    Option.some_inj] at h
  obtain ⟨version, -, time, -, head, hhead, handL, hL, handR, hR, rfl⟩ := h
  obtain ⟨v, hv, hhead⟩ := field_eq_some hhead
  simp only [JsonValue.poseNumbers, List.flatMap_cons, List.flatMap_nil, List.append_nil,
    List.map_append, transformNumbers_of_optionField hL, transformNumbers_of_optionField hR, hv,
    Option.toList_some, transformNumbers_of_fromValue hhead, PoseMessage.transforms,
    List.flatMap_append]

theorem SyncMessage.isFinite_iff {env : SyncMessageEnvelope} {m : SyncMessage}
    (h : fromEnvelope env = .ok m) : m.IsFinite ↔ env.FiniteNumbers := by
  have htry := fromEnvelope_eq_ok.mp h
  cases m with
  | pose m =>
    obtain ⟨hkind, fields, hobject, -, hdecode, -⟩ := PoseMessage.tryFrom_eq_ok.mp htry
    have hbody : env.body = .object fields := by
      cases hb : env.body with
      | object fs =>
        rw [hb] at hobject
        cases hobject
        rfl
      | _ =>
        rw [hb] at hobject
        cases hobject
    have hnumbers := poseNumbers_of_decode hdecode
    have hcoords : m.transforms.flatMap PoseTransform.coordinates =
        env.body.poseNumbers.map SerdeJson.f32FromNumber := by
      rw [hbody, hnumbers]
    calc (SyncMessage.pose m).IsFinite
        ↔ ∀ x ∈ m.transforms.flatMap PoseTransform.coordinates, F32.IsFinite x := by
          simp only [IsFinite, PoseTransform.IsFinite, List.forall_mem_flatMap]
      _ ↔ env.FiniteNumbers := by
          simp only [hcoords, List.forall_mem_map, SyncMessageEnvelope.FiniteNumbers, hkind,
            forall_const]
  | chat m =>
    have hkind := (ChatMessage.tryFrom_eq_ok.mp htry).1
    simp [IsFinite, SyncMessageEnvelope.FiniteNumbers, hkind]
  | control m =>
    have hkind := (ControlMessage.tryFrom_eq_ok.mp htry).1
    rcases hkind with hkind | hkind <;> simp [IsFinite, SyncMessageEnvelope.FiniteNumbers, hkind]
  | signaling m =>
    have hkind := (SignalingMessage.tryFrom_eq_ok.mp htry).1
    rcases hkind with hkind | hkind | hkind <;>
      simp [IsFinite, SyncMessageEnvelope.FiniteNumbers, hkind]

/-- What an envelope decodes to goes back into an envelope of the same kind, and decodes again,
exactly when the body has the tag of the kind and its coordinates are finite. -/
theorem SyncMessage.reencoded_iff [LawfulFloats] {env : SyncMessageEnvelope} {m : SyncMessage}
    (h : fromEnvelope env = .ok m) :
    (∃ env', m.intoEnvelope = .ok env' ∧ env'.kind = env.kind ∧ fromEnvelope env' = .ok m) ↔
      env.TagAgrees ∧ env.FiniteNumbers := by
  have hvalid := accepted_of_fromEnvelope h
  rw [← streamKindOf_iff h, ← isFinite_iff h, ← fromEnvelope_envelope hvalid]
  constructor
  · rintro ⟨env', hinto, hkind, hback⟩
    obtain ⟨-, rfl⟩ := intoEnvelope_eq_ok.mp hinto
    exact ⟨hkind, hback⟩
  · rintro ⟨hkind, hback⟩
    exact ⟨m.envelope, intoEnvelope_eq_ok.mpr ⟨hvalid, rfl⟩, hkind, hback⟩

end Numbers

section Samples

/-- A control message of alice with the given tag, in an envelope of kind `control.join`. -/
def joinEnvelope (tag : String) : SyncMessageEnvelope :=
  ⟨1, .controlJoin, .object [("participantId", .string "alice"), ("type", .string tag)]⟩

theorem SyncMessage.reencoded_iff_join :
    let _ := JsonText.serdeText
    ∃ m, fromEnvelope (joinEnvelope "join") = .ok m ∧
      ((∃ env', m.intoEnvelope = .ok env' ∧ env'.kind = .controlJoin ∧
          fromEnvelope env' = .ok m) ↔
        (joinEnvelope "join").TagAgrees ∧ (joinEnvelope "join").FiniteNumbers) := by
  intro _
  have hfloats := JsonText.serdeText_floats
  have hdecode : fromEnvelope (joinEnvelope "join") =
      .ok (.control (.join ⟨"alice", none, none⟩)) := rfl
  exact ⟨_, hdecode, reencoded_iff hdecode⟩

theorem SyncMessage.join_decodes_to_leave :
    let _ := JsonText.serdeText
    ∃ m, fromEnvelope (joinEnvelope "leave") = .ok m ∧
      ∀ env', m.intoEnvelope = .ok env' → env'.kind = .controlLeave := by
  intro _
  refine ⟨.control (.leave ⟨"alice", none, none⟩), rfl, fun env' h => ?_⟩
  cases h
  rfl

end Samples

end Syncer
end Bakopa

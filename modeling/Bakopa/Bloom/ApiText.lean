import Bakopa.Lib.Fields
import Bakopa.Bloom.Handler
import Bakopa.Syncer.JsonText

/-!
# Bakopa.Bloom.ApiText

The text form of the protocol of `bloom/api`.

A message is written as a map with its tag first and its fields in the order of declaration. What
serde's derived decoders read is a `Content`: a value whose maps have their fields as the text has
them. Which contents they accept follows from `tag = "type"`, `deny_unknown_fields` and `flatten`:

* a map, in any order, with every field once and no other; but a variant without fields takes any
  other fields (`deny_unknown_fields` does not reach it);
* a sequence of the tag and the fields in order, unless the variant has a flattened struct.

`fromContent_eq_some` says so for both enums, and `texts_read_back` that every message is read back
from its text.
-/

namespace Bakopa
namespace Bloom

open Lib Syncer

abbrev Content := JsonValue

/-! ## What serde derives -/

/-- The tag, and what is left for the variant. -/
def tagged : Content → Option (String × Content)
  | .object fields =>
    match takeField "type" fields with
    | some (.string tag, rest) => some (tag, .object rest)
    | _ => none
  | .array (.string tag :: items) => some (tag, .array items)
  | _ => none

/-- An enum with `tag = "type"`, from what its variants decode. -/
def fromTagged {α : Type} (fromVariant : String → Content → Option α) (v : Content) : Option α :=
  match tagged v with
  | some (tag, rest) => fromVariant tag rest
  | none => none

/-- A variant without fields. -/
def unitVariant : Content → Bool
  | .object _ => true
  | .array items => items.isEmpty
  | _ => false

/-- The values of the fields of a variant, as they are declared. -/
def structVariant (keys : List String) : Content → Option (List Content)
  | .object fields => exactFields keys fields
  | .array items => if items.length = keys.length then some items else none
  | _ => none

/-- A variant with a flattened struct; the keys of the struct come last. -/
def flattenVariant (keys : List String) : Content → Option (List Content)
  | .object fields => exactFields keys fields
  | _ => none

/-- What is accepted as `m`, where `R` says which maps of fields its variant takes, and `L` which
sequences. -/
theorem fromTagged_eq_some {α : Type} {fromVariant : String → Content → Option α} {m : α}
    {name : String} {R : List (String × Content) → Prop} {L : List Content → Prop} {v : Content}
    (hmap : ∀ tag rest, fromVariant tag (.object rest) = some m ↔ tag = name ∧ R rest)
    (hperm : ∀ l l', l.Perm l' → R l → R l')
    (hseq : ∀ tag items, fromVariant tag (.array items) = some m ↔ tag = name ∧ L items) :
    fromTagged fromVariant v = some m ↔
      (∃ fields rest, v = .object fields ∧ fields.Perm (("type", .string name) :: rest) ∧
        "type" ∉ rest.map Prod.fst ∧ R rest) ∨
      ∃ items, v = .array (.string name :: items) ∧ L items := by
  constructor
  · intro h
    cases v with
    | object fields =>
      cases htake : takeField "type" fields with
      | none => simp [fromTagged, tagged, htake] at h
      | some x =>
        obtain ⟨value, rest⟩ := x
        cases value with
        | string tag =>
          simp only [fromTagged, tagged, htake] at h
          obtain ⟨rfl, hR⟩ := (hmap tag rest).mp h
          obtain ⟨hfields, hnot⟩ := perm_of_takeField htake
          exact .inl ⟨fields, rest, rfl, hfields, hnot, hR⟩
        | _ => simp [fromTagged, tagged, htake] at h
    | array items =>
      cases items with
      | nil => cases h
      | cons value items =>
        cases value with
        | string tag =>
          obtain ⟨rfl, hL⟩ := (hseq tag items).mp h
          exact .inr ⟨items, rfl, hL⟩
        | _ => cases h
    | _ => cases h
  · rintro (⟨fields, rest, rfl, hfields, hnot, hR⟩ | ⟨items, rfl, hL⟩)
    · obtain ⟨rest', htake, hrest⟩ := takeField_of_perm hfields hnot
      simp only [fromTagged, tagged, htake]
      exact (hmap name rest').mpr ⟨rfl, hperm _ _ hrest.symm hR⟩
    · exact (hseq name items).mpr ⟨rfl, hL⟩

section Values

variable {α β : Type}

def one (decode : Content → Option α) : Option (List Content) → Option α
  | some [v] => decode v
  | _ => none

def two (decode : Content → Option α) (decode' : Content → Option β) :
    Option (List Content) → Option (α × β)
  | some [v, w] => (decode v).bind fun a => (decode' w).map fun b => (a, b)
  | _ => none

variable {decode : Content → Option α} {decode' : Content → Option β} {values : Option (List Content)}

theorem one_eq_some {a : α} :
    one decode values = some a ↔ ∃ v, values = some [v] ∧ decode v = some a := by
  unfold one
  split
  · simp
  · rename_i hnot
    exact ⟨fun h => (Option.some_ne_none a h.symm).elim, fun ⟨v, hv, _⟩ => absurd hv (hnot v)⟩

theorem two_eq_some {x : α × β} :
    two decode decode' values = some x ↔
      ∃ v w, values = some [v, w] ∧ decode v = some x.1 ∧ decode' w = some x.2 := by
  obtain ⟨a, b⟩ := x
  unfold two
  split
  · simp [Option.bind_eq_some_iff]
  · rename_i hnot
    exact ⟨fun h => (Option.some_ne_none _ h.symm).elim,
      fun ⟨v, w, hv, _⟩ => absurd hv (hnot v w)⟩

theorem one_object {key : String} {fields : List (String × Content)} {a : α} :
    one decode (exactFields [key] fields) = some a ↔
      ∃ v, decode v = some a ∧ fields = [(key, v)] := by
  rw [one_eq_some]
  constructor
  · rintro ⟨v, hv, ha⟩
    have hperm := ((exactFields_eq_some (List.nodup_singleton key)).mp hv).2
    exact ⟨v, ha, List.perm_singleton.mp hperm⟩
  · rintro ⟨v, ha, rfl⟩
    exact ⟨v, (exactFields_eq_some (List.nodup_singleton key)).mpr ⟨rfl, .refl _⟩, ha⟩

theorem two_object {key key' : String} {fields : List (String × Content)} {x : α × β}
    (hkeys : key ≠ key') :
    two decode decode' (exactFields [key, key'] fields) = some x ↔
      ∃ v w, decode v = some x.1 ∧ decode' w = some x.2 ∧ fields.Perm [(key, v), (key', w)] := by
  have hnodup : [key, key'].Nodup := by simpa using hkeys
  rw [two_eq_some]
  constructor
  · rintro ⟨v, w, hvw, ha, hb⟩
    exact ⟨v, w, ha, hb, ((exactFields_eq_some hnodup).mp hvw).2⟩
  · rintro ⟨v, w, ha, hb, hperm⟩
    exact ⟨v, w, (exactFields_eq_some hnodup).mpr ⟨rfl, hperm⟩, ha, hb⟩

theorem one_array {key : String} {items : List Content} {a : α} :
    one decode (structVariant [key] (.array items)) = some a ↔
      ∃ v, decode v = some a ∧ items = [v] := by
  rw [one_eq_some]
  constructor
  · rintro ⟨v, hv, ha⟩
    simp only [structVariant, Option.ite_none_right_eq_some, Option.some_inj] at hv
    exact ⟨v, ha, hv.2⟩
  · rintro ⟨v, ha, rfl⟩
    exact ⟨v, rfl, ha⟩

theorem two_array {key key' : String} {items : List Content} {x : α × β} :
    two decode decode' (structVariant [key, key'] (.array items)) = some x ↔
      ∃ v w, decode v = some x.1 ∧ decode' w = some x.2 ∧ items = [v, w] := by
  rw [two_eq_some]
  constructor
  · rintro ⟨v, w, hvw, ha, hb⟩
    simp only [structVariant, Option.ite_none_right_eq_some, Option.some_inj] at hvw
    exact ⟨v, w, ha, hb, hvw.2⟩
  · rintro ⟨v, w, ha, hb, rfl⟩
    exact ⟨v, w, rfl, ha, hb⟩

theorem asStr_eq_some {v : Content} {s : String} : v.asStr = some s ↔ v = .string s := by
  cases v <;> simp [JsonValue.asStr]

end Values

namespace ErrorCode

def name : ErrorCode → String
  | .roomFull => "RoomFull"
  | .roomNotFound => "RoomNotFound"
  | .invalidPayload => "InvalidPayload"
  | .participantNotFound => "ParticipantNotFound"
  | .rateLimited => "RateLimited"
  | .internal => "Internal"

def fromName : String → Option ErrorCode
  | "RoomFull" => some .roomFull
  | "RoomNotFound" => some .roomNotFound
  | "InvalidPayload" => some .invalidPayload
  | "ParticipantNotFound" => some .participantNotFound
  | "RateLimited" => some .rateLimited
  | "Internal" => some .internal
  | _ => none

/-- Externally tagged: the name, or a map from the name to nothing. -/
def fromContent : Content → Option ErrorCode
  | .string name => fromName name
  | .object [(name, .null)] => fromName name
  | .object [(name, .object [])] => fromName name
  | _ => none

/-- The spellings of a code. -/
def Spells (code : ErrorCode) (v : Content) : Prop :=
  v = .string code.name ∨ v = .object [(code.name, .null)] ∨ v = .object [(code.name, .object [])]

theorem fromName_eq_some {s : String} {code : ErrorCode} :
    fromName s = some code ↔ s = code.name := by
  constructor
  · intro h
    unfold fromName at h
    split at h <;> cases h <;> rfl
  · rintro rfl
    cases code <;> rfl

theorem fromContent_eq_some {v : Content} {code : ErrorCode} :
    fromContent v = some code ↔ code.Spells v := by
  constructor
  · intro h
    unfold fromContent at h
    split at h
    · rw [fromName_eq_some.mp h]; exact .inl rfl
    · rw [fromName_eq_some.mp h]; exact .inr (.inl rfl)
    · rw [fromName_eq_some.mp h]; exact .inr (.inr rfl)
    · cases h
  · rintro (rfl | rfl | rfl)
    all_goals exact fromName_eq_some.mpr rfl

end ErrorCode

/-- `Vec<String>` -/
def stringsFromContent : Content → Option (List String)
  | .array items => items.mapM JsonValue.asStr
  | _ => none

theorem stringsFromContent_eq_some {v : Content} {l : List String} :
    stringsFromContent v = some l ↔ v = .array (l.map .string) := by
  have hmap : ∀ (items : List Content) (l : List String),
      items.mapM JsonValue.asStr = some l ↔ items = l.map .string := by
    intro items
    induction items with
    | nil => intro l; simp
    | cons v items ih =>
      intro l
      simp only [List.mapM_cons, Option.bind_eq_bind, Option.bind_eq_some_iff, Option.pure_def,
        Option.some_inj, asStr_eq_some, ih]
      constructor
      · rintro ⟨s, rfl, l, rfl, rfl⟩
        rfl
      · intro h
        cases l with
        | nil => cases h
        | cons s l =>
          cases h
          exact ⟨s, rfl, l, rfl, rfl⟩
  cases v with
  | array items => exact (hmap items l).trans (by simp)
  | _ => simp [stringsFromContent]

/-! ## Requests -/

namespace ClientToServer

def type : ClientToServer → String
  | .createRoom => "CreateRoom"
  | .joinRoom _ => "JoinRoom"
  | .leaveRoom => "LeaveRoom"
  | .offer _ _ => "Offer"
  | .answer _ _ => "Answer"
  | .iceCandidate _ _ => "IceCandidate"

def fields : ClientToServer → List (String × Content)
  | .createRoom => []
  | .joinRoom roomId => [("room_id", .string roomId)]
  | .leaveRoom => []
  | .offer target payload => [("to", .string target), ("sdp", .string payload.sdp)]
  | .answer target payload => [("to", .string target), ("sdp", .string payload.sdp)]
  | .iceCandidate target payload =>
    [("to", .string target), ("candidate", .string payload.candidate)]

/-- The derived `Serialize`. -/
def toContent (m : ClientToServer) : Content := .object (("type", .string m.type) :: m.fields)

def fromVariant (tag : String) (rest : Content) : Option ClientToServer :=
  match tag with
  | "CreateRoom" => if unitVariant rest then some .createRoom else none
  | "JoinRoom" => (one JsonValue.asStr (structVariant ["room_id"] rest)).map .joinRoom
  | "LeaveRoom" => if unitVariant rest then some .leaveRoom else none
  | "Offer" =>
    (two JsonValue.asStr JsonValue.asStr (flattenVariant ["to", "sdp"] rest)).map
      fun x => .offer x.1 ⟨x.2⟩
  | "Answer" =>
    (two JsonValue.asStr JsonValue.asStr (flattenVariant ["to", "sdp"] rest)).map
      fun x => .answer x.1 ⟨x.2⟩
  | "IceCandidate" =>
    (two JsonValue.asStr JsonValue.asStr (flattenVariant ["to", "candidate"] rest)).map
      fun x => .iceCandidate x.1 ⟨x.2⟩
  | _ => none

/-- The derived `Deserialize`. -/
def fromContent : Content → Option ClientToServer := fromTagged fromVariant

/-- The variants with a flattened struct. -/
def Flattens : ClientToServer → Prop
  | .offer _ _ | .answer _ _ | .iceCandidate _ _ => True
  | .createRoom | .joinRoom _ | .leaveRoom => False

theorem fromVariant_object {tag : String} {rest : List (String × Content)} {m : ClientToServer} :
    fromVariant tag (.object rest) = some m ↔
      tag = m.type ∧ (m.fields = [] ∨ rest.Perm m.fields) := by
  constructor
  · intro h
    unfold fromVariant at h
    split at h
    · cases h
      exact ⟨rfl, .inl rfl⟩
    · obtain ⟨roomId, hone, rfl⟩ := Option.map_eq_some_iff.mp h
      obtain ⟨v, hv, rfl⟩ := one_object.mp hone
      rw [asStr_eq_some.mp hv]
      exact ⟨rfl, .inr (.refl _)⟩
    · cases h
      exact ⟨rfl, .inl rfl⟩
    all_goals try cases h
    all_goals
      obtain ⟨x, htwo, rfl⟩ := Option.map_eq_some_iff.mp h
      obtain ⟨v, w, hv, hw, hperm⟩ := (two_object (by decide)).mp htwo
      rw [asStr_eq_some.mp hv, asStr_eq_some.mp hw] at hperm
      exact ⟨rfl, .inr hperm⟩
  · rintro ⟨rfl, h⟩
    cases m with
    | createRoom => rfl
    | leaveRoom => rfl
    | joinRoom roomId =>
      have hperm := h.resolve_left (List.cons_ne_nil _ _)
      exact Option.map_eq_some_iff.mpr
        ⟨roomId, one_object.mpr ⟨_, rfl, List.perm_singleton.mp hperm⟩, rfl⟩
    | offer target payload =>
      have hperm := h.resolve_left (List.cons_ne_nil _ _)
      exact Option.map_eq_some_iff.mpr ⟨(target, payload.sdp),
        (two_object (by decide)).mpr ⟨_, _, rfl, rfl, hperm⟩, rfl⟩
    | answer target payload =>
      have hperm := h.resolve_left (List.cons_ne_nil _ _)
      exact Option.map_eq_some_iff.mpr ⟨(target, payload.sdp),
        (two_object (by decide)).mpr ⟨_, _, rfl, rfl, hperm⟩, rfl⟩
    | iceCandidate target payload =>
      have hperm := h.resolve_left (List.cons_ne_nil _ _)
      exact Option.map_eq_some_iff.mpr ⟨(target, payload.candidate),
        (two_object (by decide)).mpr ⟨_, _, rfl, rfl, hperm⟩, rfl⟩

theorem fromVariant_array {tag : String} {items : List Content} {m : ClientToServer} :
    fromVariant tag (.array items) = some m ↔
      tag = m.type ∧ ¬ m.Flattens ∧ items = m.fields.map Prod.snd := by
  constructor
  · intro h
    unfold fromVariant at h
    split at h
    · split at h
      · rename_i hempty
        cases h
        exact ⟨rfl, id, List.isEmpty_iff.mp hempty⟩
      · cases h
    · obtain ⟨roomId, hone, rfl⟩ := Option.map_eq_some_iff.mp h
      obtain ⟨v, hv, rfl⟩ := one_array.mp hone
      rw [asStr_eq_some.mp hv]
      exact ⟨rfl, id, rfl⟩
    · split at h
      · rename_i hempty
        cases h
        exact ⟨rfl, id, List.isEmpty_iff.mp hempty⟩
      · cases h
    all_goals cases h
  · rintro ⟨rfl, hflat, rfl⟩
    cases m with
    | createRoom => rfl
    | leaveRoom => rfl
    | joinRoom roomId => rfl
    | _ => exact absurd trivial hflat

/-- The contents that are read as a request. -/
def WrittenAs (m : ClientToServer) (v : Content) : Prop :=
  (∃ fields rest, v = .object fields ∧ fields.Perm (("type", .string m.type) :: rest) ∧
    "type" ∉ rest.map Prod.fst ∧ (m.fields = [] ∨ rest.Perm m.fields)) ∨
  ∃ items, v = .array (.string m.type :: items) ∧ ¬ m.Flattens ∧ items = m.fields.map Prod.snd

theorem fromContent_eq_some {v : Content} {m : ClientToServer} :
    fromContent v = some m ↔ m.WrittenAs v :=
  fromTagged_eq_some (fun _ _ => fromVariant_object)
    (fun _ _ hl => Or.imp_right fun h => hl.symm.trans h) fun _ _ => fromVariant_array

theorem fromContent_toContent (m : ClientToServer) : fromContent m.toContent = some m := by
  refine fromContent_eq_some.mpr (.inl ⟨_, m.fields, rfl, .refl _, ?_, .inr (.refl _)⟩)
  cases m <;> simp [fields]

end ClientToServer

/-! ## What clients are told -/

namespace ServerToClient

def type : ServerToClient → String
  | .roomCreated _ _ => "RoomCreated"
  | .roomParticipants _ _ => "RoomParticipants"
  | .peerConnected _ => "PeerConnected"
  | .peerDisconnected _ => "PeerDisconnected"
  | .offer _ _ => "Offer"
  | .answer _ _ => "Answer"
  | .iceCandidate _ _ => "IceCandidate"
  | .error _ _ => "Error"

def fields : ServerToClient → List (String × Content)
  | .roomCreated roomId selfId => [("room_id", .string roomId), ("self_id", .string selfId)]
  | .roomParticipants roomId participants =>
    [("room_id", .string roomId), ("participants", .array (participants.map .string))]
  | .peerConnected participantId => [("participant_id", .string participantId)]
  | .peerDisconnected participantId => [("participant_id", .string participantId)]
  | .offer sender payload => [("from", .string sender), ("sdp", .string payload.sdp)]
  | .answer sender payload => [("from", .string sender), ("sdp", .string payload.sdp)]
  | .iceCandidate sender payload =>
    [("from", .string sender), ("candidate", .string payload.candidate)]
  | .error code message => [("code", .string code.name), ("message", .string message)]

/-- The derived `Serialize`. -/
def toContent (m : ServerToClient) : Content := .object (("type", .string m.type) :: m.fields)

def fromVariant (tag : String) (rest : Content) : Option ServerToClient :=
  match tag with
  | "RoomCreated" =>
    (two JsonValue.asStr JsonValue.asStr (structVariant ["room_id", "self_id"] rest)).map
      fun x => .roomCreated x.1 x.2
  | "RoomParticipants" =>
    (two JsonValue.asStr stringsFromContent (structVariant ["room_id", "participants"] rest)).map
      fun x => .roomParticipants x.1 x.2
  | "PeerConnected" =>
    (one JsonValue.asStr (structVariant ["participant_id"] rest)).map .peerConnected
  | "PeerDisconnected" =>
    (one JsonValue.asStr (structVariant ["participant_id"] rest)).map .peerDisconnected
  | "Offer" =>
    (two JsonValue.asStr JsonValue.asStr (flattenVariant ["from", "sdp"] rest)).map
      fun x => .offer x.1 ⟨x.2⟩
  | "Answer" =>
    (two JsonValue.asStr JsonValue.asStr (flattenVariant ["from", "sdp"] rest)).map
      fun x => .answer x.1 ⟨x.2⟩
  | "IceCandidate" =>
    (two JsonValue.asStr JsonValue.asStr (flattenVariant ["from", "candidate"] rest)).map
      fun x => .iceCandidate x.1 ⟨x.2⟩
  | "Error" =>
    (two ErrorCode.fromContent JsonValue.asStr (structVariant ["code", "message"] rest)).map
      fun x => .error x.1 x.2
  | _ => none

/-- The derived `Deserialize`. -/
def fromContent : Content → Option ServerToClient := fromTagged fromVariant

/-- The variants with a flattened struct. -/
def Flattens : ServerToClient → Prop
  | .offer _ _ | .answer _ _ | .iceCandidate _ _ => True
  | _ => False

/-- The fields of a message, in order; only an error code can be spelled in several ways. -/
def Spells : ServerToClient → List (String × Content) → Prop
  | .error code message, l => ∃ v, code.Spells v ∧ l = [("code", v), ("message", .string message)]
  | m, l => l = m.fields

theorem two_fields {α β : Type} {decode : Content → Option α} {decode' : Content → Option β}
    {key key' : String} {fields : List (String × Content)} {make : α × β → ServerToClient}
    {m : ServerToClient} (hkeys : key ≠ key')
    (h : (two decode decode' (exactFields [key, key'] fields)).map make = some m) :
    ∃ x v w, make x = m ∧ decode v = some x.1 ∧ decode' w = some x.2 ∧
      fields.Perm [(key, v), (key', w)] := by
  obtain ⟨x, htwo, hmake⟩ := Option.map_eq_some_iff.mp h
  obtain ⟨v, w, hv, hw, hperm⟩ := (two_object hkeys).mp htwo
  exact ⟨x, v, w, hmake, hv, hw, hperm⟩

theorem fromVariant_object {tag : String} {rest : List (String × Content)} {m : ServerToClient} :
    fromVariant tag (.object rest) = some m ↔
      tag = m.type ∧ ∃ l, m.Spells l ∧ rest.Perm l := by
  constructor
  · intro h
    unfold fromVariant at h
    split at h
    · obtain ⟨x, v, w, rfl, hv, hw, hperm⟩ := two_fields (by decide) h
      exact ⟨rfl, _, by rw [asStr_eq_some.mp hv, asStr_eq_some.mp hw]; rfl, hperm⟩
    · obtain ⟨x, v, w, rfl, hv, hw, hperm⟩ := two_fields (by decide) h
      exact ⟨rfl, _, by rw [asStr_eq_some.mp hv, stringsFromContent_eq_some.mp hw]; rfl, hperm⟩
    · obtain ⟨participantId, hone, rfl⟩ := Option.map_eq_some_iff.mp h
      obtain ⟨v, hv, rfl⟩ := one_object.mp hone
      exact ⟨rfl, _, by rw [asStr_eq_some.mp hv]; rfl, .refl _⟩
    · obtain ⟨participantId, hone, rfl⟩ := Option.map_eq_some_iff.mp h
      obtain ⟨v, hv, rfl⟩ := one_object.mp hone
      exact ⟨rfl, _, by rw [asStr_eq_some.mp hv]; rfl, .refl _⟩
    · obtain ⟨x, v, w, rfl, hv, hw, hperm⟩ := two_fields (by decide) h
      exact ⟨rfl, _, by rw [asStr_eq_some.mp hv, asStr_eq_some.mp hw]; rfl, hperm⟩
    · obtain ⟨x, v, w, rfl, hv, hw, hperm⟩ := two_fields (by decide) h
      exact ⟨rfl, _, by rw [asStr_eq_some.mp hv, asStr_eq_some.mp hw]; rfl, hperm⟩
    · obtain ⟨x, v, w, rfl, hv, hw, hperm⟩ := two_fields (by decide) h
      exact ⟨rfl, _, by rw [asStr_eq_some.mp hv, asStr_eq_some.mp hw]; rfl, hperm⟩
    · obtain ⟨x, v, w, rfl, hv, hw, hperm⟩ := two_fields (by decide) h
      exact ⟨rfl, _, ⟨v, ErrorCode.fromContent_eq_some.mp hv, by rw [asStr_eq_some.mp hw]⟩, hperm⟩
    · cases h
  · rintro ⟨rfl, l, hl, hperm⟩
    cases m with
    | roomCreated roomId selfId =>
      cases hl
      exact Option.map_eq_some_iff.mpr ⟨(roomId, selfId),
        (two_object (by decide)).mpr ⟨_, _, rfl, rfl, hperm⟩, rfl⟩
    | roomParticipants roomId participants =>
      cases hl
      exact Option.map_eq_some_iff.mpr ⟨(roomId, participants), (two_object (by decide)).mpr
        ⟨_, _, rfl, stringsFromContent_eq_some.mpr rfl, hperm⟩, rfl⟩
    | peerConnected participantId =>
      cases hl
      exact Option.map_eq_some_iff.mpr
        ⟨participantId, one_object.mpr ⟨_, rfl, List.perm_singleton.mp hperm⟩, rfl⟩
    | peerDisconnected participantId =>
      cases hl
      exact Option.map_eq_some_iff.mpr
        ⟨participantId, one_object.mpr ⟨_, rfl, List.perm_singleton.mp hperm⟩, rfl⟩
    | offer sender payload =>
      cases hl
      exact Option.map_eq_some_iff.mpr ⟨(sender, payload.sdp),
        (two_object (by decide)).mpr ⟨_, _, rfl, rfl, hperm⟩, rfl⟩
    | answer sender payload =>
      cases hl
      exact Option.map_eq_some_iff.mpr ⟨(sender, payload.sdp),
        (two_object (by decide)).mpr ⟨_, _, rfl, rfl, hperm⟩, rfl⟩
    | iceCandidate sender payload =>
      cases hl
      exact Option.map_eq_some_iff.mpr ⟨(sender, payload.candidate),
        (two_object (by decide)).mpr ⟨_, _, rfl, rfl, hperm⟩, rfl⟩
    | error code message =>
      obtain ⟨v, hv, rfl⟩ := hl
      exact Option.map_eq_some_iff.mpr ⟨(code, message), (two_object (by decide)).mpr
        ⟨_, _, ErrorCode.fromContent_eq_some.mpr hv, rfl, hperm⟩, rfl⟩

theorem two_items {α β : Type} {decode : Content → Option α} {decode' : Content → Option β}
    {key key' : String} {items : List Content} {make : α × β → ServerToClient}
    {m : ServerToClient}
    (h : (two decode decode' (structVariant [key, key'] (.array items))).map make = some m) :
    ∃ x v w, make x = m ∧ decode v = some x.1 ∧ decode' w = some x.2 ∧ items = [v, w] := by
  obtain ⟨x, htwo, hmake⟩ := Option.map_eq_some_iff.mp h
  obtain ⟨v, w, hv, hw, hitems⟩ := two_array.mp htwo
  exact ⟨x, v, w, hmake, hv, hw, hitems⟩

theorem fromVariant_array {tag : String} {items : List Content} {m : ServerToClient} :
    fromVariant tag (.array items) = some m ↔
      tag = m.type ∧ ¬ m.Flattens ∧ ∃ l, m.Spells l ∧ items = l.map Prod.snd := by
  constructor
  · intro h
    unfold fromVariant at h
    split at h
    · obtain ⟨x, v, w, rfl, hv, hw, rfl⟩ := two_items h
      exact ⟨rfl, id, _, rfl, by rw [asStr_eq_some.mp hv, asStr_eq_some.mp hw]; rfl⟩
    · obtain ⟨x, v, w, rfl, hv, hw, rfl⟩ := two_items h
      exact ⟨rfl, id, _, rfl, by
        rw [asStr_eq_some.mp hv, stringsFromContent_eq_some.mp hw]; rfl⟩
    · obtain ⟨participantId, hone, rfl⟩ := Option.map_eq_some_iff.mp h
      obtain ⟨v, hv, rfl⟩ := one_array.mp hone
      exact ⟨rfl, id, _, rfl, by rw [asStr_eq_some.mp hv]; rfl⟩
    · obtain ⟨participantId, hone, rfl⟩ := Option.map_eq_some_iff.mp h
      obtain ⟨v, hv, rfl⟩ := one_array.mp hone
      exact ⟨rfl, id, _, rfl, by rw [asStr_eq_some.mp hv]; rfl⟩
    · cases h
    · cases h
    · cases h
    · obtain ⟨x, v, w, rfl, hv, hw, rfl⟩ := two_items h
      exact ⟨rfl, id, _, ⟨v, ErrorCode.fromContent_eq_some.mp hv, rfl⟩, by
        rw [asStr_eq_some.mp hw]; rfl⟩
    · cases h
  · rintro ⟨rfl, hflat, l, hl, rfl⟩
    cases m with
    | roomParticipants roomId participants =>
      cases hl
      exact Option.map_eq_some_iff.mpr ⟨(roomId, participants), two_array.mpr
        ⟨_, _, rfl, stringsFromContent_eq_some.mpr rfl, rfl⟩, rfl⟩
    | error code message =>
      obtain ⟨v, hv, rfl⟩ := hl
      exact Option.map_eq_some_iff.mpr ⟨(code, message), two_array.mpr
        ⟨_, _, ErrorCode.fromContent_eq_some.mpr hv, rfl, rfl⟩, rfl⟩
    | offer sender payload => exact absurd trivial hflat
    | answer sender payload => exact absurd trivial hflat
    | iceCandidate sender payload => exact absurd trivial hflat
    | _ => cases hl; rfl

/-- The contents that are read as a message. -/
def WrittenAs (m : ServerToClient) (v : Content) : Prop :=
  (∃ fields rest, v = .object fields ∧ fields.Perm (("type", .string m.type) :: rest) ∧
    "type" ∉ rest.map Prod.fst ∧ ∃ l, m.Spells l ∧ rest.Perm l) ∨
  ∃ items, v = .array (.string m.type :: items) ∧ ¬ m.Flattens ∧
    ∃ l, m.Spells l ∧ items = l.map Prod.snd

theorem fromContent_eq_some {v : Content} {m : ServerToClient} :
    fromContent v = some m ↔ m.WrittenAs v :=
  fromTagged_eq_some (fun _ _ => fromVariant_object)
    (fun _ _ hl ⟨l, hspells, h⟩ => ⟨l, hspells, hl.symm.trans h⟩) fun _ _ => fromVariant_array

theorem spells_fields (m : ServerToClient) : m.Spells m.fields := by
  cases m with
  | error code message => exact ⟨_, .inl rfl, rfl⟩
  | _ => rfl

theorem fromContent_toContent (m : ServerToClient) : fromContent m.toContent = some m := by
  refine fromContent_eq_some.mpr (.inl ⟨_, m.fields, rfl, .refl _, ?_, _, m.spells_fields, .refl _⟩)
  cases m <;> simp [fields]

end ServerToClient

theorem tag_unique {fields rest rest' : List (String × Content)} {v v' : Content}
    (h : fields.Perm (("type", v) :: rest)) (h' : fields.Perm (("type", v') :: rest'))
    (hnot : "type" ∉ rest'.map Prod.fst) : v = v' := by
  have hmem : ("type", v) ∈ ("type", v') :: rest' :=
    (h.symm.trans h').subset List.mem_cons_self
  rcases List.mem_cons.mp hmem with heq | hmem
  · exact congrArg Prod.snd heq
  · exact absurd (List.mem_map_of_mem hmem) hnot

/-- A request that shares its tag with a message of the server is a relay, and has a field that the
message has not. -/
theorem relay_of_type_eq {m : ClientToServer} {m' : ServerToClient} (h : m.type = m'.type) :
    m.Flattens ∧ ∃ target, ("to", target) ∈ m.fields ∧
      ∀ l, m'.Spells l → ("to", target) ∉ l := by
  cases m <;> cases m' <;> simp only [ClientToServer.type, ServerToClient.type] at h
  all_goals first
    | exact absurd h (by decide)
    | refine ⟨trivial, _, List.mem_cons_self, ?_⟩
      rintro l rfl
      simp [ServerToClient.fields]

/-- No content is both a request and a message of the server. -/
theorem directions_disjoint {v : Content} {m : ClientToServer} {m' : ServerToClient}
    (h : m.WrittenAs v) : ¬ m'.WrittenAs v := by
  rintro (⟨fields', rest', rfl, hfields', hnot', l, hspells, hrest'⟩ |
    ⟨items', rfl, -, -⟩)
  · rcases h with ⟨fields, rest, heq, hfields, hnot, hrest⟩ | ⟨items, heq, -⟩
    · cases heq
      have htype : m.type = m'.type :=
        JsonValue.string.inj (tag_unique hfields hfields' hnot')
      obtain ⟨-, target, hmem, hno⟩ := relay_of_type_eq htype
      have hrest := hrest.resolve_left (List.ne_nil_of_mem hmem)
      have hin : ("to", target) ∈ ("type", JsonValue.string m'.type) :: rest' :=
        (hfields.symm.trans hfields').subset
          (List.mem_cons_of_mem _ (hrest.symm.subset hmem))
      rcases List.mem_cons.mp hin with heq | hin
      · simp at heq
      · exact hno l hspells (hrest'.subset hin)
    · cases heq
  · rcases h with ⟨fields, rest, heq, -⟩ | ⟨items, heq, hflat, -⟩
    · cases heq
    · have htag : JsonValue.string m'.type = JsonValue.string m.type :=
        (List.cons.inj (JsonValue.array.inj heq)).1
      exact hflat (relay_of_type_eq (JsonValue.string.inj htag).symm).1

/-! ## Texts -/

/-- What the enums have to do with texts: `serde_json::from_str`, before a derived decoder looks at
what it has read, and `serde_json::to_string` of what a derived encoder writes. -/
class SerdeContent where
  fromStr : String → Option Content
  toString : Content → String

/-- `serde_json` reads the messages of the protocol as it writes them. -/
class LawfulContent [SerdeContent] : Prop where
  fromStr_request (m : ClientToServer) :
    SerdeContent.fromStr (SerdeContent.toString m.toContent) = some m.toContent
  fromStr_event (m : ServerToClient) :
    SerdeContent.fromStr (SerdeContent.toString m.toContent) = some m.toContent

section Texts

variable [SerdeContent]

def ClientToServer.toText (m : ClientToServer) : String := SerdeContent.toString m.toContent

def ServerToClient.toText (m : ServerToClient) : String := SerdeContent.toString m.toContent

def ClientToServer.fromText (text : String) : Option ClientToServer :=
  (SerdeContent.fromStr text).bind ClientToServer.fromContent

def ServerToClient.fromText (text : String) : Option ServerToClient :=
  (SerdeContent.fromStr text).bind ServerToClient.fromContent

/-- A handler reads requests from their texts. -/
@[reducible] def contentJson : BloomJson := ⟨ClientToServer.fromText⟩

/-- Which texts are requests: the JSON texts whose content is one of the forms of the request. -/
theorem ClientToServer.request_iff_written (text : String) (m : ClientToServer) :
    fromText text = some m ↔ ∃ v, SerdeContent.fromStr text = some v ∧ m.WrittenAs v := by
  simp only [fromText, Option.bind_eq_some_iff, fromContent_eq_some]

/-- Which texts are messages of the server. -/
theorem ServerToClient.message_iff_written (text : String) (m : ServerToClient) :
    fromText text = some m ↔ ∃ v, SerdeContent.fromStr text = some v ∧ m.WrittenAs v := by
  simp only [fromText, Option.bind_eq_some_iff, fromContent_eq_some]

variable [LawfulContent]

theorem ClientToServer.fromText_toText (m : ClientToServer) : fromText m.toText = some m := by
  rw [fromText, toText, LawfulContent.fromStr_request, Option.bind_some, fromContent_toContent]

theorem ServerToClient.fromText_toText (m : ServerToClient) : fromText m.toText = some m := by
  rw [fromText, toText, LawfulContent.fromStr_event, Option.bind_some, fromContent_toContent]

/-- Every message is read back from its text by the decoder of its own direction, and is nothing to
that of the other. -/
theorem texts_read_back :
    (∀ m : ClientToServer,
      ClientToServer.fromText m.toText = some m ∧ ServerToClient.fromText m.toText = none) ∧
    ∀ m : ServerToClient,
      ServerToClient.fromText m.toText = some m ∧ ClientToServer.fromText m.toText = none := by
  constructor
  · intro m
    refine ⟨m.fromText_toText, ?_⟩
    rw [ServerToClient.fromText, ClientToServer.toText, LawfulContent.fromStr_request,
      Option.bind_some]
    cases hother : ServerToClient.fromContent m.toContent with
    | none => rfl
    | some m' =>
      have hwritten := ServerToClient.fromContent_eq_some.mp hother
      exact absurd hwritten (directions_disjoint
        (ClientToServer.fromContent_eq_some.mp m.fromContent_toContent))
  · intro m
    refine ⟨m.fromText_toText, ?_⟩
    rw [ClientToServer.fromText, ServerToClient.toText, LawfulContent.fromStr_event,
      Option.bind_some]
    cases hother : ClientToServer.fromContent m.toContent with
    | none => rfl
    | some m' =>
      have hwritten := ClientToServer.fromContent_eq_some.mp hother
      exact absurd (ServerToClient.fromContent_eq_some.mp m.fromContent_toContent)
        (directions_disjoint hwritten)

end Texts

/-- What messages are made of. -/
inductive Plain : Content → Prop where
  | string (s : String) : Plain (.string s)
  | array {items : List Content} (h : ∀ v ∈ items, Plain v) : Plain (.array items)
  | object {fields : List (String × Content)} (h : ∀ f ∈ fields, Plain f.2) : Plain (.object fields)

theorem ClientToServer.plain_toContent (m : ClientToServer) : Plain m.toContent := by
  refine .object fun f hf => ?_
  cases m <;> simp only [fields, List.mem_cons, List.not_mem_nil, or_false] at hf
  all_goals rcases hf with rfl | rfl | rfl
  all_goals exact .string _

theorem ServerToClient.plain_toContent (m : ServerToClient) : Plain m.toContent := by
  have hstrings : ∀ l : List String, Plain (.array (l.map .string)) := by
    intro l
    refine .array fun v hv => ?_
    obtain ⟨s, -, rfl⟩ := List.mem_map.mp hv
    exact .string s
  refine .object fun f hf => ?_
  cases m <;> simp only [fields, List.mem_cons, List.not_mem_nil, or_false] at hf
  all_goals rcases hf with rfl | rfl | rfl
  all_goals first | exact .string _ | exact hstrings _

namespace PlainText

open JsonText

/-- Reads what messages are made of, in the compact form. -/
def readContent : Nat → Parser Content
  | 0, _ => none
  | fuel + 1, cs =>
    match cs with
    | '"' :: rest => (parseString rest).map fun (cs, rest) => (.string (String.ofList cs), rest)
    | '[' :: rest =>
      (parseList (readContent fuel) ']' fuel rest).map fun (items, rest) => (.array items, rest)
    | '{' :: rest =>
      (parseList (parseField (readContent fuel)) '}' fuel rest).map fun (fields, rest) =>
        (.object fields, rest)
    | _ => none

theorem readContent_text {v : Content} (h : Plain v) :
    ∀ fuel, (text v).length ≤ fuel → Reads (readContent fuel) v (text v) := by
  have pos : ∀ (v : Content) fuel, (text v).length ≤ fuel → ∃ n, fuel = n + 1 := by
    intro v fuel hfuel
    obtain ⟨c, cs, hv, -⟩ := text_head v
    rw [hv, List.length_cons] at hfuel
    exact ⟨fuel - 1, by omega⟩
  induction h with
  | string s =>
    intro fuel hfuel rest hrest
    obtain ⟨fuel, rfl⟩ := pos _ fuel hfuel
    simp only [text, quote, List.cons_append, List.append_assoc, List.nil_append, readContent,
      parseString_quote, Option.map_some, String.ofList_toList]
  | @array items _ ih =>
    intro fuel hfuel rest hrest
    obtain ⟨fuel, rfl⟩ := pos _ fuel hfuel
    simp only [text, List.length_cons, texts_eq] at hfuel
    obtain ⟨hitems, hlen⟩ := length_le_listText ']' (items.map text)
    have hreads : List.Forall₂ (Reads (readContent fuel)) items (items.map text) := by
      rw [List.forall₂_map_right_iff, List.forall₂_same]
      intro v hv
      have := hitems (text v) (List.mem_map_of_mem hv)
      exact ih v hv fuel (by omega)
    have hlist := parseList_listText ']' ⟨by decide, by decide⟩ hreads (by
      intro t ht
      obtain ⟨v, -, rfl⟩ := List.mem_map.mp ht
      exact text_head v) fuel (by omega) rest
    simp only [text, texts_eq, List.cons_append, readContent, hlist, Option.map_some]
  | @object fields _ ih =>
    intro fuel hfuel rest hrest
    obtain ⟨fuel, rfl⟩ := pos _ fuel hfuel
    simp only [text, List.length_cons, fieldTexts_eq] at hfuel
    obtain ⟨hfields, hlen⟩ := length_le_listText '}'
      (fields.map fun f : String × JsonValue => quote f.1 ++ ':' :: text f.2)
    have hreads : List.Forall₂ (Reads (parseField (readContent fuel))) fields
        (fields.map fun f : String × JsonValue => quote f.1 ++ ':' :: text f.2) := by
      rw [List.forall₂_map_right_iff, List.forall₂_same]
      intro f hf
      have hlt := hfields _ (List.mem_map_of_mem hf)
      rw [List.length_append, List.length_cons] at hlt
      exact parseField_text (ih f hf fuel (by omega))
    have hlist := parseList_listText '}' ⟨by decide, by decide⟩ hreads (by
      intro t ht
      obtain ⟨f, -, rfl⟩ := List.mem_map.mp ht
      exact ⟨'"', _, rfl, by decide⟩) fuel (by omega) rest
    simp only [text, fieldTexts_eq, List.cons_append, readContent, hlist, Option.map_some]

def fromStr (s : String) : Option Content :=
  match readContent s.toList.length s.toList with
  | some (v, []) => some v
  | _ => none

@[reducible] def compactContent : SerdeContent := ⟨fromStr, fun v => String.ofList (text v)⟩

theorem fromStr_text {v : Content} (h : Plain v) : fromStr (String.ofList (text v)) = some v := by
  have hread := readContent_text h (text v).length le_rfl [] (by intro c hc; cases hc)
  rw [List.append_nil] at hread
  simp only [fromStr, String.toList_ofList, hread]

theorem compactContent_lawful : @LawfulContent compactContent :=
  @LawfulContent.mk compactContent (fun m => fromStr_text m.plain_toContent)
    fun m => fromStr_text m.plain_toContent

end PlainText

/-- An answer for a participant, as a client writes it. -/
theorem texts_read_back_answer :
    let _ := PlainText.compactContent
    (ClientToServer.answer "a" ⟨"v=0"⟩).toText =
      "\x7b\"type\":\"Answer\",\"to\":\"a\",\"sdp\":\"v=0\"\x7d" ∧
    ClientToServer.fromText (ClientToServer.answer "a" ⟨"v=0"⟩).toText =
      some (.answer "a" ⟨"v=0"⟩) ∧
    ServerToClient.fromText (ClientToServer.answer "a" ⟨"v=0"⟩).toText = none := by
  intro _
  have hlawful := PlainText.compactContent_lawful
  exact ⟨by decide +kernel, texts_read_back.1 _⟩

end Bloom
end Bakopa

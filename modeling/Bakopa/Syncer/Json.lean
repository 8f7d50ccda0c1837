import Mathlib.Algebra.Group.Nat.Defs

/-!
# Bakopa.Syncer.Json

What the repository uses of `serde_json::Value`, and of serde's derived decoders over it.

Objects are `BTreeMap`s: lists of fields with their keys in order and no key twice. An `f32` and
the `f64` behind a JSON float are their bit patterns; what is done with them (the conversions)
belongs to serde and is a parameter further on.
-/

namespace Bakopa
namespace Syncer

abbrev F32 := BitVec 32

abbrev F64 := BitVec 64

inductive JsonNumber where
  | posInt (n : UInt64)
  /-- Negative. -/
  | negInt (n : Int64)
  /-- Finite. -/
  | float (x : F64)
deriving DecidableEq

inductive JsonValue where
  | null
  | bool (b : Bool)
  | number (n : JsonNumber)
  | string (s : String)
  | array (items : List JsonValue)
  | object (fields : List (String × JsonValue))

namespace JsonValue

def asObject : JsonValue → Option (List (String × JsonValue))
  | .object fields => some fields
  | _ => none

def isObject (v : JsonValue) : Bool := v.asObject.isSome

def asStr : JsonValue → Option String
  | .string s => some s
  | _ => none

def asU64 : JsonValue → Option UInt64
  | .number (.posInt n) => some n
  | _ => none

def uint (n : UInt64) : JsonValue := .number (.posInt n)

/-- `Option<String>` and the like are written as `null` when absent. -/
def ofOption {α : Type} (toValue : α → JsonValue) : Option α → JsonValue
  | some a => toValue a
  | none => .null

end JsonValue

/-- The values that `serde_json` reads back as they were written: a map has its keys in order, an
integer is written in one way, and a float is a finite number. -/
inductive JsonValue.Lossless : JsonValue → Prop where
  | null : Lossless .null
  | bool (b : Bool) : Lossless (.bool b)
  | uint (n : UInt64) : Lossless (.uint n)
  | negInt {n : Int64} (h : n < 0) : Lossless (.number (.negInt n))
  | float {x : F64} (h : x.extractLsb' 52 11 ≠ BitVec.allOnes 11) : Lossless (.number (.float x))
  | string (s : String) : Lossless (.string s)
  | array {items : List JsonValue} (h : ∀ v ∈ items, Lossless v) : Lossless (.array items)
  | object {fields : List (String × JsonValue)} (hkeys : (fields.map Prod.fst).Pairwise (· < ·))
      (h : ∀ f ∈ fields, Lossless f.2) : Lossless (.object fields)

theorem JsonValue.lossless_ofOption {α : Type} {toValue : α → JsonValue}
    (h : ∀ a, (toValue a).Lossless) (o : Option α) : (JsonValue.ofOption toValue o).Lossless := by
  cases o with
  | none => exact .null
  | some a => exact h a

/-! ## Derived decoders -/

/-- An unsigned integer of `w` bits; every other number is an error. -/
def JsonValue.toUInt (w : Nat) (v : JsonValue) : Option Nat :=
  match v.asU64 with
  | some n => if n.toNat < 2 ^ w then some n.toNat else none
  | none => none

def JsonValue.toU16 (v : JsonValue) : Option UInt16 := (v.toUInt 16).map UInt16.ofNat

def JsonValue.toU32 (v : JsonValue) : Option UInt32 := (v.toUInt 32).map UInt32.ofNat

/-- A field that must be there. -/
def field {α : Type} (fields : List (String × JsonValue)) (key : String)
    (decode : JsonValue → Option α) : Option α :=
  match fields.lookup key with
  | some v => decode v
  | none => none

/-- A `#[serde(default)]` field of type `Option`: absent and `null` are `None`. -/
def optionField {α : Type} (fields : List (String × JsonValue)) (key : String)
    (decode : JsonValue → Option α) : Option (Option α) :=
  match fields.lookup key with
  | none | some .null => some none
  | some v => (decode v).map some

end Syncer
end Bakopa

import Mathlib.Data.Finmap

/-!
# Bakopa.Bloom.Id

The identifiers of `bloom/core/src/id.rs`, and what the repository uses of the `uuid` crate.

A `Uuid` is a 128-bit value. Parsing and printing belong to the crate, so they are a parameter
(`UuidCrate`); its documented round trip is `LawfulUuid`, which the canonical text form
(`hyphenated`) meets. `RoomId::new` draws a random value: a function that calls it takes the drawn
id as an argument.
-/

namespace Bakopa

abbrev Uuid := BitVec 128

/-- `Uuid::parse_str` (with its error dropped, as every caller does) and `Display`. -/
class UuidCrate where
  parseStr : String → Option Uuid
  display : Uuid → String

class LawfulUuid [UuidCrate] : Prop where
  parseStr_display (u : Uuid) : UuidCrate.parseStr (UuidCrate.display u) = some u

structure RoomId where
  uuid : Uuid
deriving DecidableEq, Repr

structure ParticipantId where
  uuid : Uuid
deriving DecidableEq, Repr

section Text

variable [UuidCrate]

def RoomId.toString (r : RoomId) : String := UuidCrate.display r.uuid

def RoomId.fromStr (s : String) : Option RoomId := (UuidCrate.parseStr s).map RoomId.mk

def ParticipantId.toString (p : ParticipantId) : String := UuidCrate.display p.uuid

def ParticipantId.fromStr (s : String) : Option ParticipantId :=
  (UuidCrate.parseStr s).map ParticipantId.mk

@[simp] theorem ParticipantId.fromStr_toString [LawfulUuid] (p : ParticipantId) :
    ParticipantId.fromStr p.toString = some p := by
  simp [ParticipantId.fromStr, ParticipantId.toString, LawfulUuid.parseStr_display]

@[simp] theorem RoomId.fromStr_toString [LawfulUuid] (r : RoomId) :
    RoomId.fromStr r.toString = some r := by
  simp [RoomId.fromStr, RoomId.toString, LawfulUuid.parseStr_display]

theorem ParticipantId.toString_inj [LawfulUuid] {p q : ParticipantId} :
    p.toString = q.toString ↔ p = q := by
  constructor
  · intro h
    have hp := ParticipantId.fromStr_toString p
    rw [h, ParticipantId.fromStr_toString] at hp
    exact (Option.some.inj hp).symm
  · exact congrArg ParticipantId.toString

end Text

/-! ## The canonical text form -/

namespace Hyphenated

/-- The last `n` hexadecimal digits of a number, the highest first. -/
def digits : Nat → Nat → List Nat
  | 0, _ => []
  | n + 1, u => digits n (u / 16) ++ [u % 16]

def value (l : List Nat) : Nat := l.foldl (fun acc d => 16 * acc + d) 0

theorem value_digits (n u : Nat) : value (digits n u) = u % 16 ^ n := by
  induction n generalizing u with
  | zero => simp [digits, value, Nat.mod_one]
  | succ n ih =>
    have h := ih (u / 16)
    unfold value at h
    simp only [digits, value, List.foldl_append, h, List.foldl_cons, List.foldl_nil]
    rw [Nat.pow_succ', Nat.mod_mul]
    omega

theorem length_digits (n u : Nat) : (digits n u).length = n := by
  induction n generalizing u with
  | zero => rfl
  | succ n ih => simp [digits, ih]

theorem lt_of_mem_digits {n u d : Nat} (h : d ∈ digits n u) : d < 16 := by
  induction n generalizing u with
  | zero => cases h
  | succ n ih =>
    simp only [digits, List.mem_append, List.mem_singleton] at h
    rcases h with h | rfl
    · exact ih h
    · omega

def hexChar (d : Nat) : Char := if d < 10 then Char.ofNat (48 + d) else Char.ofNat (87 + d)

def fromHexChar (c : Char) : Option Nat :=
  if '0' ≤ c ∧ c ≤ '9' then some (c.toNat - 48)
  else if 'a' ≤ c ∧ c ≤ 'f' then some (c.toNat - 87)
  else if 'A' ≤ c ∧ c ≤ 'F' then some (c.toNat - 55)
  else none

theorem fromHexChar_hexChar : ∀ d < 16, fromHexChar (hexChar d) = some d := by decide

/-- The groups of 8, 4, 4, 4 and 12 characters, with hyphens between them. -/
def group (cs : List Char) : List Char :=
  cs.take 8 ++ '-' :: ((cs.drop 8).take 4 ++ '-' :: ((cs.drop 12).take 4 ++
    '-' :: ((cs.drop 16).take 4 ++ '-' :: cs.drop 20)))

def ungroup (cs : List Char) : Option (List Char) :=
  if cs.length = 36 ∧ cs[8]? = some '-' ∧ cs[13]? = some '-' ∧ cs[18]? = some '-' ∧
      cs[23]? = some '-' then
    some (cs.take 8 ++ (cs.drop 9).take 4 ++ (cs.drop 14).take 4 ++ (cs.drop 19).take 4 ++
      cs.drop 24)
  else none

theorem ungroup_group {cs : List Char} (h : cs.length = 32) : ungroup (group cs) = some cs := by
  match cs, h with
  | [a0, a1, a2, a3, a4, a5, a6, a7, b0, b1, b2, b3, c0, c1, c2, c3, d0, d1, d2, d3,
      e0, e1, e2, e3, e4, e5, e6, e7, e8, e9, e10, e11], _ => rfl

theorem mapM_fromHexChar {ds : List Nat} (h : ∀ d ∈ ds, d < 16) :
    (ds.map hexChar).mapM fromHexChar = some ds := by
  induction ds with
  | nil => rfl
  | cons d ds ih =>
    rw [List.map_cons, List.mapM_cons, fromHexChar_hexChar d (h d List.mem_cons_self),
      ih fun d' hd' => h d' (List.mem_cons_of_mem d hd')]
    rfl

def display (u : Uuid) : String := String.ofList (group ((digits 32 u.toNat).map hexChar))

def parseStr (s : String) : Option Uuid :=
  match ungroup s.toList with
  | none => none
  | some cs => (cs.mapM fromHexChar).map fun ds => BitVec.ofNat 128 (value ds)

theorem parseStr_display (u : Uuid) : parseStr (display u) = some u := by
  have hlen : ((digits 32 u.toNat).map hexChar).length = 32 := by
    rw [List.length_map, length_digits]
  have hvalue : value (digits 32 u.toNat) = u.toNat := by
    rw [value_digits]
    exact Nat.mod_eq_of_lt u.isLt
  simp only [parseStr, display, String.toList_ofList, ungroup_group hlen,
    mapM_fromHexChar fun d hd => lt_of_mem_digits hd, Option.map_some, hvalue]
  simp

end Hyphenated

/-- The crate on the canonical form; it also reads the simple, braced and URN forms. -/
@[reducible] def hyphenated : UuidCrate := ⟨Hyphenated.parseStr, Hyphenated.display⟩

theorem hyphenated_lawful : @LawfulUuid hyphenated :=
  @LawfulUuid.mk hyphenated Hyphenated.parseStr_display

end Bakopa

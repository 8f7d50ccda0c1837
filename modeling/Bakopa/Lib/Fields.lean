import Mathlib.Data.List.Perm.Basic

/-!
# Bakopa.Lib.Fields

Records as lists of fields, as a decoder reads them that wants every field once and no other.

* `takeField`   — the value of a field that is there exactly once, and the other fields.
* `exactFields` — the values of the given fields, if there are no others. It does not depend on the
  order of the fields: it is `zip` undone, up to a permutation (`exactFields_eq_some`).
-/

namespace Bakopa
namespace Lib

variable {κ ν : Type} [DecidableEq κ]

def takeField (key : κ) : List (κ × ν) → Option (ν × List (κ × ν))
  | [] => none
  | (k, v) :: fields =>
    if k = key then if key ∈ fields.map Prod.fst then none else some (v, fields)
    else (takeField key fields).map fun x => (x.1, (k, v) :: x.2)

def exactFields : List κ → List (κ × ν) → Option (List ν)
  | [], fields => if fields.isEmpty then some [] else none
  | key :: keys, fields =>
    match takeField key fields with
    | some (v, rest) => (exactFields keys rest).map fun vs => v :: vs
    | none => none

variable {key : κ} {keys : List κ} {fields rest : List (κ × ν)} {v : ν} {vs : List ν}

theorem takeField_eq_some :
    takeField key fields = some (v, rest) ↔
      ∃ pre post, fields = pre ++ (key, v) :: post ∧ rest = pre ++ post ∧
        key ∉ rest.map Prod.fst := by
  induction fields generalizing rest with
  | nil => simp [takeField]
  | cons f fields ih =>
    obtain ⟨k, w⟩ := f
    by_cases hk : k = key
    · subst hk
      simp only [takeField, if_true]
      constructor
      · intro h
        split at h
        · cases h
        · rename_i hnot
          cases h
          exact ⟨[], _, rfl, rfl, hnot⟩
      · rintro ⟨pre, post, heq, rfl, hnot⟩
        cases pre with
        | nil =>
          cases heq
          exact if_neg hnot
        | cons g pre =>
          rw [List.cons_append, List.cons.injEq] at heq
          rw [← heq.1] at hnot
          simp at hnot
    · simp only [takeField, if_neg hk, Option.map_eq_some_iff, Prod.mk.injEq]
      constructor
      · rintro ⟨⟨w', rest'⟩, h, rfl, rfl⟩
        obtain ⟨pre, post, rfl, rfl, hnot⟩ := ih.mp h
        refine ⟨(k, w) :: pre, post, rfl, rfl, ?_⟩
        rw [List.map_cons, List.mem_cons]
        exact not_or.mpr ⟨Ne.symm hk, hnot⟩
      · rintro ⟨pre, post, heq, rfl, hnot⟩
        cases pre with
        | nil => cases heq; exact absurd rfl hk
        | cons g pre =>
          rw [List.cons_append, List.cons.injEq] at heq
          obtain ⟨rfl, rfl⟩ := heq
          rw [List.cons_append, List.map_cons, List.mem_cons, not_or] at hnot
          exact ⟨(v, pre ++ post), ih.mpr ⟨pre, post, rfl, rfl, hnot.2⟩, rfl, rfl⟩

theorem perm_of_takeField (h : takeField key fields = some (v, rest)) :
    fields.Perm ((key, v) :: rest) ∧ key ∉ rest.map Prod.fst := by
  obtain ⟨pre, post, rfl, rfl, hnot⟩ := takeField_eq_some.mp h
  exact ⟨List.perm_middle, hnot⟩

/-- Where the other fields stand does not matter. -/
theorem takeField_of_perm (h : fields.Perm ((key, v) :: rest)) (hnot : key ∉ rest.map Prod.fst) :
    ∃ rest', takeField key fields = some (v, rest') ∧ rest'.Perm rest := by
  have hmem : (key, v) ∈ fields := h.symm.subset List.mem_cons_self
  obtain ⟨pre, post, rfl⟩ := List.append_of_mem hmem
  have hrest : (pre ++ post).Perm rest := List.Perm.cons_inv (List.perm_middle.symm.trans h)
  refine ⟨pre ++ post, takeField_eq_some.mpr ⟨pre, post, rfl, rfl, fun hin => hnot ?_⟩, hrest⟩
  exact (hrest.map Prod.fst).subset hin

theorem exactFields_eq_some (hkeys : keys.Nodup) :
    exactFields keys fields = some vs ↔
      vs.length = keys.length ∧ fields.Perm (keys.zip vs) := by
  induction keys generalizing fields vs with
  | nil =>
    simp only [exactFields, List.zip_nil_left, List.perm_nil, List.length_nil,
      List.length_eq_zero_iff, Option.ite_none_right_eq_some, List.isEmpty_iff, Option.some_inj]
    exact ⟨fun ⟨hnil, hvs⟩ => ⟨hvs.symm, hnil⟩, fun ⟨hvs, hnil⟩ => ⟨hnil, hvs.symm⟩⟩
  | cons key keys ih =>
    rw [List.nodup_cons] at hkeys
    obtain ⟨hkey, hkeys⟩ := hkeys
    simp only [exactFields]
    constructor
    · intro h
      split at h
      · rename_i v rest htake
        obtain ⟨vs, hvs, rfl⟩ := Option.map_eq_some_iff.mp h
        obtain ⟨hlen, hperm⟩ := (ih hkeys).mp hvs
        refine ⟨by simpa using hlen, ?_⟩
        rw [List.zip_cons_cons]
        exact (perm_of_takeField htake).1.trans (hperm.cons _)
      · cases h
    · rintro ⟨hlen, hperm⟩
      cases vs with
      | nil => simp at hlen
      | cons v vs =>
        have hlen' : vs.length = keys.length := by simpa using hlen
        have hnot : key ∉ (keys.zip vs).map Prod.fst := by
          rw [List.map_fst_zip (Nat.le_of_eq hlen'.symm)]
          exact hkey
        obtain ⟨rest, htake, hrest⟩ := takeField_of_perm hperm hnot
        rw [htake]
        simp only [(ih hkeys).mpr ⟨hlen', hrest⟩, Option.map_some]

end Lib
end Bakopa

import Mathlib.Data.List.Basic

/-!
# Bakopa.Lib.Chunks

A list that arrives in pieces.

* `Chunk`       — a piece of at most `m` elements, never empty.
* `joined`      — the list that pieces make up.
* `before`      — how much there is of the list when the piece that makes it `k` long is awaited.
  It is less than `k`, and by no more than `m` (`before_lt`, `le_before_add`).
* `exists_cut`  — a list in pieces of `m`, for which `before` takes whole steps of `m`.
-/

namespace Bakopa
namespace Lib

structure Chunk (α : Type) (m : Nat) where
  items : List α
  pos : 0 < items.length
  le : items.length ≤ m

variable {α : Type} {m k got : Nat} {c : Chunk α m} {cs : List (Chunk α m)}

def joined (cs : List (Chunk α m)) : List α := cs.flatMap Chunk.items

@[simp] theorem joined_nil : joined ([] : List (Chunk α m)) = [] := rfl

@[simp] theorem joined_cons : joined (c :: cs) = c.items ++ joined cs := rfl

/-- `got` is what there is already. -/
def before (k got : Nat) : List (Chunk α m) → Nat
  | [] => got
  | c :: cs => if k ≤ got + c.items.length then got else before k (got + c.items.length) cs

theorem before_cons_of_le (h : k ≤ got + c.items.length) : before k got (c :: cs) = got :=
  if_pos h

theorem before_cons_of_lt (h : got + c.items.length < k) :
    before k got (c :: cs) = before k (got + c.items.length) cs := if_neg (Nat.not_le.mpr h)

theorem le_before : got ≤ before k got cs := by
  induction cs generalizing got with
  | nil => exact Nat.le_refl got
  | cons c cs ih =>
    by_cases hk : k ≤ got + c.items.length
    · exact Nat.le_of_eq (before_cons_of_le hk).symm
    · rw [before_cons_of_lt (Nat.not_le.mp hk)]
      have hle : got + c.items.length ≤ before k (got + c.items.length) cs := ih
      omega

theorem before_lt (h : got < k) : before k got cs < k := by
  induction cs generalizing got with
  | nil => exact h
  | cons c cs ih =>
    by_cases hk : k ≤ got + c.items.length
    · rw [before_cons_of_le hk]
      exact h
    · rw [before_cons_of_lt (Nat.not_le.mp hk)]
      exact ih (Nat.not_le.mp hk)

theorem le_before_add (h : k ≤ got + (joined cs).length) : k ≤ before k got cs + m := by
  induction cs generalizing got with
  | nil => exact Nat.le_trans h (Nat.add_le_add_left (Nat.zero_le m) got)
  | cons c cs ih =>
    by_cases hk : k ≤ got + c.items.length
    · rw [before_cons_of_le hk]
      have hle := c.le
      omega
    · rw [before_cons_of_lt (Nat.not_le.mp hk)]
      refine ih ?_
      rw [joined_cons, List.length_append] at h
      omega

/-- A list in pieces of `m`, the last one apart. -/
theorem exists_cut (hm : 0 < m) (l : List α) : ∃ cs : List (Chunk α m), joined cs = l ∧
    ∀ k got, got < k → k ≤ got + l.length → ∃ j, before k got cs = got + m * j := by
  induction hn : l.length using Nat.strongRecOn generalizing l with
  | _ n ih =>
    by_cases hlast : l.length ≤ m
    · cases l with
      | nil => exact ⟨[], rfl, fun k got _ _ => ⟨0, rfl⟩⟩
      | cons x l =>
        refine ⟨[⟨x :: l, Nat.succ_pos _, hlast⟩], by simp, fun k got _ hk => ⟨0, ?_⟩⟩
        exact before_cons_of_le (hn ▸ hk)
    · have hfirst : (l.take m).length = m := by
        rw [List.length_take]
        omega
      have hrest : (l.drop m).length = l.length - m := List.length_drop
      obtain ⟨cs, hcs, hsteps⟩ := ih (l.length - m) (by omega) (l.drop m) hrest
      refine ⟨⟨l.take m, by omega, by omega⟩ :: cs, ?_, fun k got hgot hk => ?_⟩
      · rw [joined_cons, hcs, List.take_append_drop]
      · by_cases hreach : k ≤ got + (l.take m).length
        · exact ⟨0, before_cons_of_le hreach⟩
        · rw [before_cons_of_lt (Nat.not_le.mp hreach)]
          obtain ⟨j, hj⟩ := hsteps k (got + (l.take m).length) (Nat.not_le.mp hreach) (by omega)
          refine ⟨j + 1, ?_⟩
          rw [hj, hfirst, Nat.mul_succ]
          omega

end Lib
end Bakopa

import Mathlib.Data.List.Sort
import Mathlib.Data.Set.Card

/-!
# Bakopa.Lib.Seniority

Groups whose members are known with the time they came in, and the lists that show a group in
that order.

* `Since α` — for every element, since when it is a member (`none`: it is not).
* `Listing since l` — `l` lists exactly the members, the longest standing first;
  `since.listing` is that list.

A group has at most one listing (`Listing.unique`); a newcomer goes to the end of it
(`Listing.enter`), and a leaver is taken out without moving the others (`Listing.leave`).
-/

namespace Bakopa
namespace Lib

abbrev Since (α : Type) := α → Option Nat

namespace Since

variable {α : Type}

def members (since : Since α) : Set α := {a | ∃ t, since a = some t}

def Earlier (since : Since α) (a b : α) : Prop :=
  ∃ s t, since a = some s ∧ since b = some t ∧ s < t

def none : Since α := fun _ => Option.none

theorem Earlier.irrefl {since : Since α} (a : α) : ¬ since.Earlier a a := by
  rintro ⟨s, t, hs, ht, hlt⟩
  rw [hs] at ht; cases ht
  omega

theorem Earlier.asymm {since : Since α} {a b : α} (hab : since.Earlier a b) :
    ¬ since.Earlier b a := by
  rintro ⟨s, t, hs, ht, hlt⟩
  obtain ⟨s', t', hs', ht', hlt'⟩ := hab
  rw [hs] at ht'; cases ht'
  rw [ht] at hs'; cases hs'
  omega

section Moves

variable [DecidableEq α]

/-- `a` comes in, or comes in again, at time `t`. -/
def enter (since : Since α) (a : α) (t : Nat) : Since α := Function.update since a (some t)

def leave (since : Since α) (a : α) : Since α := Function.update since a Option.none

@[simp] theorem enter_self {since : Since α} {a : α} {t : Nat} : since.enter a t a = some t := by
  simp [enter]

theorem enter_of_ne {since : Since α} {a b : α} {t : Nat} (h : b ≠ a) :
    since.enter a t b = since b := by
  simp [enter, h]

@[simp] theorem leave_self {since : Since α} {a : α} : since.leave a a = Option.none := by
  simp [leave]

theorem leave_of_ne {since : Since α} {a b : α} (h : b ≠ a) : since.leave a b = since b := by
  simp [leave, h]

end Moves

end Since

structure Listing {α : Type} (since : Since α) (l : List α) : Prop where
  mem_iff : ∀ a, a ∈ l ↔ a ∈ since.members
  sorted : l.Pairwise since.Earlier

open Classical in
/-- The listing of a group, empty when it has none. -/
noncomputable def Since.listing {α : Type} (since : Since α) : List α :=
  if h : ∃ l, Listing since l then h.choose else []

namespace Listing

variable {α : Type} {since : Since α} {l l' : List α}

theorem nodup (h : Listing since l) : l.Nodup :=
  h.sorted.imp fun {a b} hab => by
    rintro rfl
    exact Since.Earlier.irrefl a hab

theorem unique (h : Listing since l) (h' : Listing since l') : l = l' := by
  have hperm : l.Perm l' := by
    rw [List.perm_ext_iff_of_nodup h.nodup h'.nodup]
    intro a
    rw [h.mem_iff, h'.mem_iff]
  refine hperm.eq_of_pairwise (fun a b _ _ hab hba => ?_) h.sorted h'.sorted
  exact absurd hba hab.asymm

theorem nil : Listing (Since.none : Since α) [] where
  mem_iff a := by simp [Since.members, Since.none]
  sorted := .nil

theorem nil_iff (h : Listing since l) : l = [] ↔ since.members = ∅ := by
  rw [List.eq_nil_iff_forall_not_mem, Set.eq_empty_iff_forall_notMem]
  constructor
  · intro hl a ha; exact hl a ((h.mem_iff a).mpr ha)
  · intro hs a ha; exact hs a ((h.mem_iff a).mp ha)

theorem ncard_eq (h : Listing since l) : since.members.ncard = l.length := by
  classical
  have : since.members = (l.toFinset : Set α) := by
    ext a
    rw [List.coe_toFinset, Set.mem_ofPred_eq, h.mem_iff]
  rw [this, Set.ncard_coe_finset, List.toFinset_card_of_nodup h.nodup]

theorem listing_eq (h : Listing since l) : since.listing = l := by
  have hex : ∃ l, Listing since l := ⟨l, h⟩
  rw [Since.listing, dif_pos hex]
  exact hex.choose_spec.unique h

variable [DecidableEq α]

/-- Someone who was not a member and comes in after all of them goes to the end. -/
theorem enter (h : Listing since l) {a : α} {t : Nat} (ha : a ∉ since.members)
    (ht : ∀ b s, since b = some s → s < t) : Listing (since.enter a t) (l ++ [a]) := by
  have hal : a ∉ l := fun hmem => ha ((h.mem_iff a).mp hmem)
  constructor
  · intro b
    by_cases hb : b = a
    · subst hb; simp [Since.members]
    · simp [Since.members, Since.enter_of_ne hb, hb, h.mem_iff]
  · rw [List.pairwise_append]
    refine ⟨?_, List.pairwise_singleton _ _, ?_⟩
    · refine h.sorted.imp_of_mem fun {b c} hb hc hbc => ?_
      have hba : b ≠ a := fun e => hal (e ▸ hb)
      have hca : c ≠ a := fun e => hal (e ▸ hc)
      obtain ⟨s, u, hs, hu, hlt⟩ := hbc
      exact ⟨s, u, by rwa [Since.enter_of_ne hba], by rwa [Since.enter_of_ne hca], hlt⟩
    · intro b hb c hc
      rw [List.mem_singleton] at hc; subst hc
      have hbc : b ≠ c := fun e => hal (e ▸ hb)
      obtain ⟨s, hs⟩ := (h.mem_iff b).mp hb
      exact ⟨s, t, by rwa [Since.enter_of_ne hbc], Since.enter_self, ht b s hs⟩

theorem leave (h : Listing since l) (a : α) :
    Listing (since.leave a) (l.filter (· ≠ a)) := by
  constructor
  · intro b
    by_cases hb : b = a
    · subst hb; simp [Since.members]
    · simp [Since.members, Since.leave_of_ne hb, hb, h.mem_iff]
  · refine (h.sorted.filter _).imp_of_mem fun {b c} hb hc hbc => ?_
    have hba : b ≠ a := by simpa using (List.mem_filter.mp hb).2
    have hca : c ≠ a := by simpa using (List.mem_filter.mp hc).2
    obtain ⟨s, u, hs, hu, hlt⟩ := hbc
    exact ⟨s, u, by rwa [Since.leave_of_ne hba], by rwa [Since.leave_of_ne hca], hlt⟩

end Listing

end Lib
end Bakopa

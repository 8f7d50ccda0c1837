import Bakopa.Lib.Machine

/-!
# Bakopa.Lib.Windows

Counting arrivals in windows of time. Instants are natural numbers, `w` is the length of a window.

* `countP_window_le` — a bound on the arrivals that still count whenever one arrives is a bound on
  the arrivals of every window `(t - w, t]`.
* `Block`            — arrivals of one window, by its start. Blocks that start at least `w` apart
  and hold at most `n` arrivals each leave at most `(k + 1) * n` in any `k` windows in a row
  (`countP_blocks_le`).
-/

namespace Bakopa
namespace Lib

variable {n w now t : Nat} {l : List Nat}

theorem le_last (h : (l ++ [now]).Pairwise (· ≤ ·)) : ∀ x ∈ l, x ≤ now := fun x hx =>
  (List.pairwise_append.mp h).2.2 x hx now (List.mem_singleton_self now)

theorem sorted_of_append (l : List Nat) (t : Nat) (h : (l ++ [t]).Pairwise (· ≤ ·)) :
    l.Pairwise (· ≤ ·) := (List.pairwise_append.mp h).1

/-- Arrivals that all have `p`, of a list where at most `n` have it, are at most `n`. -/
theorem length_le_of_countP_le {l' : List Nat} {p : Nat → Bool} (hsub : l'.Sublist l)
    (hall : ∀ x ∈ l', p x = true) (hfew : l.countP p ≤ n) : l'.length ≤ n := by
  have hle := hsub.countP_le (p := p)
  rw [List.countP_eq_length.mpr hall] at hle
  exact Nat.le_trans hle hfew

/-! ## A sliding window -/

/-- If at most `n` arrivals, the newest included, are less than `w` old whenever one arrives, then
every interval `(t - w, t]` has at most `n` of them. -/
theorem countP_window_le
    (h : Throughout (fun pre x => (pre ++ [x]).countP (fun y => x < y + w) ≤ n) l) (t : Nat) :
    l.countP (fun y => t < y + w ∧ y ≤ t) ≤ n := by
  induction l using List.reverseRecOn with
  | nil => exact Nat.zero_le n
  | append_singleton l x ih =>
    obtain ⟨hl, hx⟩ := Throughout.append_iff.mp h
    rw [Throughout.singleton_iff, List.append_nil] at hx
    by_cases hin : t < x + w ∧ x ≤ t
    · -- the newest arrival is in the interval, and so are those that still count with it
      refine Nat.le_trans (List.countP_mono_left fun y _ hy => ?_) hx
      simp only [decide_eq_true_eq] at hy ⊢
      omega
    · rw [List.countP_append, List.countP_singleton, if_neg (by simpa using hin), Nat.add_zero]
      exact ih hl

/-- What is left of a sorted list when the arrivals more than `w` old are dropped from its front. -/
theorem le_of_mem_dropWhile (hl : l.Pairwise (· ≤ ·)) {x : Nat}
    (hx : x ∈ l.dropWhile fun front => now - front > w) : now ≤ x + w := by
  induction l with
  | nil => cases hx
  | cons front l ih =>
    obtain ⟨hfront, hrest⟩ := List.pairwise_cons.mp hl
    by_cases hold : now - front > w
    · rw [List.dropWhile_cons_of_pos (by simpa using hold)] at hx
      exact ih hrest hx
    · rw [List.dropWhile_cons_of_neg (by simpa using hold)] at hx
      rcases List.mem_cons.mp hx with rfl | hx
      · omega
      · have hle := hfront x hx
        omega

/-- The arrivals that are dropped no longer count. -/
theorem countP_dropWhile (ht : now ≤ t) :
    (l.dropWhile fun front => now - front > w).countP (fun y => t < y + w) =
      l.countP (fun y => t < y + w) := by
  induction l with
  | nil => rfl
  | cons front l ih =>
    by_cases hold : now - front > w
    · have hout : ¬ t < front + w := by omega
      rw [List.dropWhile_cons_of_pos (by simpa using hold), ih,
        List.countP_cons_of_neg (by simpa using hout)]
    · rw [List.dropWhile_cons_of_neg (by simpa using hold)]

/-! ## Fixed windows -/

/-- The arrivals of a window, and where it starts. -/
structure Block where
  start : Nat
  arrivals : List Nat

/-- Windows that do not overlap, with at most `n` arrivals each. -/
structure Spaced (n w : Nat) (blocks : List Block) : Prop where
  apart : blocks.Pairwise fun b c => b.start + w ≤ c.start
  few : ∀ b ∈ blocks, b.arrivals.length ≤ n
  within : ∀ b ∈ blocks, ∀ x ∈ b.arrivals, b.start ≤ x ∧ x < b.start + w

variable {b : Block} {blocks : List Block}

theorem Spaced.of_cons (h : Spaced n w (b :: blocks)) : Spaced n w blocks where
  apart := (List.pairwise_cons.mp h.apart).2
  few := fun c hc => h.few c (List.mem_cons_of_mem b hc)
  within := fun c hc => h.within c (List.mem_cons_of_mem b hc)

theorem Spaced.next_le (h : Spaced n w (b :: blocks)) : ∀ c ∈ blocks, b.start + w ≤ c.start :=
  (List.pairwise_cons.mp h.apart).1

theorem Spaced.count_le (h : Spaced n w (b :: blocks)) (P : Nat → Bool) :
    b.arrivals.countP P ≤ n :=
  Nat.le_trans List.countP_le_length (h.few b List.mem_cons_self)

theorem Spaced.snoc (h : Spaced n w blocks) (hn : 0 < n) (hw : 0 < w)
    (hpast : ∀ b ∈ blocks, b.start + w ≤ t) : Spaced n w (blocks ++ [⟨t, [t]⟩]) where
  apart := List.pairwise_append.mpr ⟨h.apart, List.pairwise_singleton _ _, by simpa using hpast⟩
  few := List.forall_mem_append.mpr ⟨h.few, by simpa using Nat.succ_le_of_lt hn⟩
  within := List.forall_mem_append.mpr ⟨h.within, by simpa using hw⟩

theorem Spaced.extend {start : Nat} {arrivals : List Nat}
    (h : Spaced n w (blocks ++ [⟨start, arrivals⟩])) (hroom : arrivals.length < n)
    (hstart : start ≤ t) (hend : t < start + w) :
    Spaced n w (blocks ++ [⟨start, arrivals ++ [t]⟩]) := by
  obtain ⟨happart, hfew, hwithin⟩ := h
  rw [List.pairwise_append] at happart
  rw [List.forall_mem_append] at hfew hwithin
  refine ⟨?_, ?_, ?_⟩
  · exact List.pairwise_append.mpr
      ⟨happart.1, List.pairwise_singleton _ _, by simpa using happart.2.2⟩
  · refine List.forall_mem_append.mpr ⟨hfew.1, ?_⟩
    intro b hb
    rw [List.mem_singleton.mp hb, List.length_append, List.length_singleton]
    exact hroom
  · refine List.forall_mem_append.mpr ⟨hwithin.1, ?_⟩
    intro b hb x hx
    rw [List.mem_singleton.mp hb] at hx ⊢
    rcases List.mem_append.mp hx with hx | hx
    · exact hwithin.2 _ (List.mem_singleton_self _) x hx
    · rw [List.mem_singleton.mp hx]
      exact ⟨hstart, hend⟩

theorem countP_eq_zero_of_start (h : Spaced n w blocks) (hstart : ∀ b ∈ blocks, t ≤ b.start)
    (a : Nat) : (blocks.flatMap (·.arrivals)).countP (fun x => a ≤ x ∧ x < t) = 0 := by
  rw [List.countP_eq_zero]
  intro x hx
  obtain ⟨b, hb, hxb⟩ := List.mem_flatMap.mp hx
  have hle := hstart b hb
  have hin := (h.within b hb x hxb).1
  simp only [decide_eq_true_eq]
  omega

/-- Where no window starts before `a`, `k` windows from `a` on have at most `k * n` arrivals. -/
theorem countP_blocks_le_of_start (h : Spaced n w blocks) (a k : Nat)
    (hstart : ∀ b ∈ blocks, a ≤ b.start) :
    (blocks.flatMap (·.arrivals)).countP (fun x => a ≤ x ∧ x < a + k * w) ≤ k * n := by
  induction blocks generalizing a k with
  | nil => exact Nat.zero_le _
  | cons b blocks ih =>
    have hb := hstart b List.mem_cons_self
    have hnext := h.next_le
    cases k with
    | zero =>
      rw [countP_eq_zero_of_start h (by simpa using hstart)]
      exact Nat.zero_le _
    | succ k =>
      have hrest := ih h.of_cons (a + w) k fun c hc => by
        have hc' := hnext c hc
        omega
      have hsame : (blocks.flatMap (·.arrivals)).countP
          (fun x => a ≤ x ∧ x < a + (k + 1) * w) ≤
          (blocks.flatMap (·.arrivals)).countP (fun x => a + w ≤ x ∧ x < a + w + k * w) := by
        refine List.countP_mono_left fun x hx hin => ?_
        obtain ⟨c, hc, hxc⟩ := List.mem_flatMap.mp hx
        have hc' := hnext c hc
        have hx' := (h.of_cons.within c hc x hxc).1
        have hk : (k + 1) * w = k * w + w := Nat.succ_mul k w
        simp only [decide_eq_true_eq] at hin ⊢
        omega
      have hfirst := h.count_le fun x => a ≤ x ∧ x < a + (k + 1) * w
      have hn : (k + 1) * n = k * n + n := Nat.succ_mul k n
      rw [List.flatMap_cons, List.countP_append]
      omega

/-- Any `k` windows in a row have at most `(k + 1) * n` arrivals. -/
theorem countP_blocks_le (h : Spaced n w blocks) (a k : Nat) :
    (blocks.flatMap (·.arrivals)).countP (fun x => a ≤ x ∧ x < a + k * w) ≤ (k + 1) * n := by
  induction blocks with
  | nil => exact Nat.zero_le _
  | cons b blocks ih =>
    have hnext := h.next_le
    have hk : (k + 1) * n = k * n + n := Nat.succ_mul k n
    by_cases hb : a ≤ b.start
    · have hall : ∀ c ∈ b :: blocks, a ≤ c.start := by
        intro c hc
        rcases List.mem_cons.mp hc with rfl | hc
        · exact hb
        · have hc' := hnext c hc
          omega
      have hle := countP_blocks_le_of_start h a k hall
      omega
    · rw [List.flatMap_cons, List.countP_append]
      by_cases hend : b.start + w ≤ a
      · have hnone : b.arrivals.countP (fun x => a ≤ x ∧ x < a + k * w) = 0 := by
          rw [List.countP_eq_zero]
          intro x hx
          have hin := (h.within b List.mem_cons_self x hx).2
          simp only [decide_eq_true_eq]
          omega
        have hrest := ih h.of_cons
        omega
      · have hfirst := h.count_le fun x => a ≤ x ∧ x < a + k * w
        have hrest := countP_blocks_le_of_start h.of_cons a k fun c hc => by
          have hc' := hnext c hc
          omega
        omega

end Lib
end Bakopa

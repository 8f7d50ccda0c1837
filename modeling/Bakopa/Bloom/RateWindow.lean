import Bakopa.Lib.Windows
import Bakopa.Bloom.RateLimit

/-!
# Bakopa.Bloom.RateWindow

What the limiter of `bloom/ws` lets through over a run of checks at clock readings that never go
back.

* `window_bound`   — no window has more than `limit_per_window` allowed checks (`Counting` is the
  invariant: outside a cooldown the queue still has every allowed check that counts, and a cooldown
  outlasts all of them).
* `never_rejected` — a client that keeps to the limit is never rejected.
* `cooldown_exact` — a rejection opens a cooldown of one window, which nothing extends.
-/

namespace Bakopa
namespace Bloom

open Lib

namespace RateLimiter

/-- A check at a clock reading, with its decision. -/
def step : Machine RateLimiter Nat (Nat × RateLimitDecision)
  | l, now =>
    let (l, decision) := l.check now
    some (l, [(now, decision)])

/-- The clock readings of the allowed checks. -/
def allowedAt (os : List (Nat × RateLimitDecision)) : List Nat :=
  (os.filter fun x => x.2.allowed).map Prod.fst

def InCooldown (l : RateLimiter) (now : Nat) : Prop := ∃ cooldownEnd,
  l.cooldownUntil = some cooldownEnd ∧ now < cooldownEnd

/-- The timestamps that a check outside a cooldown counts: none are left of an old cooldown. -/
def held (l : RateLimiter) (now : Nat) : List Nat :=
  (match l.cooldownUntil with
    | some _ => []
    | none => l.timestamps).dropWhile fun front => now - front > l.window

variable {l l' : RateLimiter} {n : UInt32} {w now t : Nat} {times : List Nat}
  {os o : List (Nat × RateLimitDecision)}

theorem check_cases (l : RateLimiter) (now : Nat) :
    (l.InCooldown now ∧ l.check now = (l, ⟨false, true⟩)) ∨
    (¬ l.InCooldown now ∧ l.limitPerWindow ≤ (l.held now).length.toUInt32 ∧
      l.check now = ({ l with timestamps := l.held now, cooldownUntil := some (now + l.window) },
        ⟨false, true⟩)) ∨
    (¬ l.InCooldown now ∧ (l.held now).length.toUInt32 < l.limitPerWindow ∧
      l.check now = ({ l with timestamps := l.held now ++ [now], cooldownUntil := none },
        ⟨true, false⟩)) := by
  -- `check` outside a cooldown, on the state it has after an old one is cleared
  have hwindow : ∀ l : RateLimiter, l.cooldownUntil = none →
      (l.limitPerWindow ≤ (l.held now).length.toUInt32 ∧ l.checkWindow now =
        ({ l with timestamps := l.held now, cooldownUntil := some (now + l.window) },
          ⟨false, true⟩)) ∨
      ((l.held now).length.toUInt32 < l.limitPerWindow ∧ l.checkWindow now =
        ({ l with timestamps := l.held now ++ [now], cooldownUntil := none }, ⟨true, false⟩)) := by
    intro l hnone
    have hheld : l.held now = l.timestamps.dropWhile fun front => now - front > l.window := by
      simp only [held, hnone]
    rw [hheld]
    by_cases hfull : l.limitPerWindow ≤
        (l.timestamps.dropWhile fun front => now - front > l.window).length.toUInt32
    · exact .inl ⟨hfull, by rw [checkWindow, if_pos hfull]⟩
    · refine .inr ⟨UInt32.not_le.mp hfull, ?_⟩
      rw [checkWindow, if_neg hfull, hnone]
  cases hc : l.cooldownUntil with
  | none =>
    have hout : ¬ l.InCooldown now := by
      rintro ⟨u, hu, -⟩
      cases hc.symm.trans hu
    have hcheck : l.check now = l.checkWindow now := by simp only [check, hc]
    rw [hcheck]
    rcases hwindow l hc with hfull | hroom
    · exact .inr (.inl ⟨hout, hfull⟩)
    · exact .inr (.inr ⟨hout, hroom⟩)
  | some cooldownEnd =>
    by_cases hlt : now < cooldownEnd
    · refine .inl ⟨⟨cooldownEnd, hc, hlt⟩, ?_⟩
      simp only [check, hc, if_pos hlt]
    · have hout : ¬ l.InCooldown now := by
        rintro ⟨u, hu, hnow⟩
        cases hc.symm.trans hu
        exact hlt hnow
      have hcheck : l.check now =
          checkWindow { l with cooldownUntil := none, timestamps := [] } now := by
        simp only [check, hc, if_neg hlt]
      have hheld : l.held now =
          held { l with cooldownUntil := none, timestamps := [] } now := by
        simp only [held, hc]
      rw [hcheck, hheld]
      rcases hwindow { l with cooldownUntil := none, timestamps := [] } rfl with hfull | hroom
      · exact .inr (.inl ⟨hout, hfull⟩)
      · exact .inr (.inr ⟨hout, hroom⟩)

theorem allowedAt_append : allowedAt (os ++ o) = allowedAt os ++ allowedAt o := by
  simp [allowedAt]

/-- A length up to the limit is not cut off by the cast. -/
theorem toUInt32_lt_iff {k : Nat} (hk : k ≤ n.toNat) : k.toUInt32 < n ↔ k < n.toNat := by
  have hn : n.toNat < 2 ^ 32 := n.toNat_lt
  have hcast : k.toUInt32.toNat = k := by
    rw [UInt32.toNat_ofNat']
    omega
  rw [UInt32.lt_iff_toNat_lt, hcast]

/-- The state after checks at `times`, of which those at `allowed` were allowed. -/
structure Counting (n : UInt32) (w : Nat) (times allowed : List Nat) (l : RateLimiter) : Prop where
  limit : l.limitPerWindow = n
  window : l.window = w
  length_le : l.timestamps.length ≤ n.toNat
  known : ∀ x ∈ allowed, x ∈ times
  /-- Outside a cooldown, the queue has every allowed check that still counts. -/
  covers : l.cooldownUntil = none → ∀ t, (∀ x ∈ times, x ≤ t) →
    allowed.countP (fun y => t < y + w) ≤ l.timestamps.countP (fun y => t < y + w)
  /-- When a cooldown ends, no allowed check counts any more. -/
  cooling : ∀ u, l.cooldownUntil = some u → ∀ x ∈ allowed, x + w ≤ u
  bound : Throughout (fun pre x => (pre ++ [x]).countP (fun y => x < y + w) ≤ n.toNat) allowed

variable {allowed : List Nat}

theorem Counting.held_covers (hc : Counting n w times allowed l) (hout : ¬ l.InCooldown now)
    (hnow : ∀ x ∈ times, x ≤ now) (ht : now ≤ t) :
    allowed.countP (fun y => t < y + w) ≤ (l.held now).countP (fun y => t < y + w) := by
  unfold held
  cases hcool : l.cooldownUntil with
  | none =>
    rw [hc.window, countP_dropWhile ht]
    exact hc.covers hcool t fun x hx => Nat.le_trans (hnow x hx) ht
  | some u =>
    have hend : u ≤ now := by
      rw [← Nat.not_lt]
      exact fun hlt => hout ⟨u, hcool, hlt⟩
    have hnone : allowed.countP (fun y => t < y + w) = 0 := by
      rw [List.countP_eq_zero]
      intro x hx
      have hx' := hc.cooling u hcool x hx
      simp only [decide_eq_true_eq]
      omega
    rw [hnone]
    exact Nat.zero_le _

theorem Counting.length_held_le (hc : Counting n w times allowed l) :
    (l.held now).length ≤ n.toNat := by
  unfold held
  cases l.cooldownUntil with
  | none => exact Nat.le_trans (List.dropWhile_sublist _).length_le hc.length_le
  | some u => exact Nat.zero_le _

theorem Counting.check (hc : Counting n w times allowed l) (hnow : ∀ x ∈ times, x ≤ now) :
    Counting n w (times ++ [now]) (allowed ++ if (l.check now).2.allowed then [now] else [])
      (l.check now).1 := by
  have hknown : ∀ x ∈ allowed, x ∈ times ++ [now] := fun x hx =>
    List.mem_append_left _ (hc.known x hx)
  rcases l.check_cases now with ⟨-, hcheck⟩ | ⟨hout, -, hcheck⟩ | ⟨hout, hroom, hcheck⟩
  · rw [hcheck]
    simp only [Bool.false_eq_true, if_false, List.append_nil]
    refine ⟨hc.limit, hc.window, hc.length_le, hknown, fun hnone t ht => ?_, hc.cooling, hc.bound⟩
    exact hc.covers hnone t fun x hx => ht x (List.mem_append_left _ hx)
  · rw [hcheck]
    simp only [Bool.false_eq_true, if_false, List.append_nil]
    refine ⟨hc.limit, hc.window, hc.length_held_le, hknown, nofun, ?_, hc.bound⟩
    intro u hu x hx
    cases hu
    have hx' := hnow x (hc.known x hx)
    rw [hc.window]
    omega
  · rw [hcheck]
    simp only [if_true]
    have hlt : (l.held now).length < n.toNat :=
      (toUInt32_lt_iff hc.length_held_le).mp (hc.limit ▸ hroom)
    have hlength : (l.held now ++ [now]).length ≤ n.toNat := by
      rw [List.length_append, List.length_singleton]
      omega
    have hcovers : ∀ t, now ≤ t → (allowed ++ [now]).countP (fun y => t < y + w) ≤
        (l.held now ++ [now]).countP (fun y => t < y + w) := by
      intro t ht
      rw [List.countP_append, List.countP_append]
      exact Nat.add_le_add_right (hc.held_covers hout hnow ht) _
    refine ⟨hc.limit, hc.window, hlength, ?_, fun _ t ht => ?_, nofun, ?_⟩
    · intro x hx
      rcases List.mem_append.mp hx with hx | hx
      · exact hknown x hx
      · exact List.mem_append_right _ hx
    · exact hcovers t (ht now (by simp))
    · rw [Throughout.append_iff, Throughout.singleton_iff, List.append_nil]
      refine ⟨hc.bound, ?_⟩
      calc (allowed ++ [now]).countP (fun y => now < y + w)
          ≤ (l.held now ++ [now]).countP (fun y => now < y + w) := hcovers now (Nat.le_refl now)
        _ ≤ (l.held now ++ [now]).length := List.countP_le_length
        _ ≤ n.toNat := hlength

theorem counting_of_run (hr : Machine.Runs step (new n w) times os l)
    (hsorted : times.Pairwise (· ≤ ·)) : Counting n w times (allowedAt os) l := by
  refine hr.history_of (I := fun l times os => Counting n w times (allowedAt os) l)
    sorted_of_append ?_ ?_ hsorted
  · exact ⟨rfl, rfl, Nat.zero_le _, nofun, fun _ _ _ => Nat.le_refl _, nofun, .nil⟩
  · intro l times os now l' o _ hsorted ih h
    have hcheck := ih.check (le_last hsorted)
    simp only [step, Option.some.injEq, Prod.mk.injEq] at h
    obtain ⟨rfl, rfl⟩ := h
    rw [allowedAt_append]
    convert hcheck using 2
    cases hd : (l.check now).2.allowed <;> simp [allowedAt, hd]

/-- At clock readings that never go back, every interval `(t - w, t]` has at most
`limit_per_window` allowed checks. -/
theorem window_bound (hr : Machine.Runs step (new n w) times os l)
    (hsorted : times.Pairwise (· ≤ ·)) (t : Nat) :
    (allowedAt os).countP (fun x => t < x + w ∧ x ≤ t) ≤ n.toNat :=
  countP_window_le (counting_of_run hr hsorted).bound t

/-- Two a window: the third check is rejected, and the next one after the cooldown is not. -/
theorem window_bound_two_a_window :
    ∃ os l, Machine.Runs step (new 2 10) [0, 1, 2, 12, 12] os l ∧ allowedAt os = [0, 1, 12, 12] ∧
      (allowedAt os).countP (fun x => 10 < x + 10 ∧ x ≤ 10) ≤ 2 := by
  have hrun : ∃ os l, Machine.Runs step (new 2 10) [0, 1, 2, 12, 12] os l ∧
      allowedAt os = [0, 1, 12, 12] := ⟨_, _, Machine.run_sound rfl, rfl⟩
  obtain ⟨os, l, hr, hallowed⟩ := hrun
  exact ⟨os, l, hr, hallowed, window_bound hr (by decide) 10⟩

/-- The state of a limiter that has not rejected anything. -/
structure Open (n : UInt32) (w : Nat) (times : List Nat) (l : RateLimiter) : Prop where
  limit : l.limitPerWindow = n
  window : l.window = w
  idle : l.cooldownUntil = none
  queue : l.timestamps.Sublist times

/-- At most `limit_per_window` checks in any interval of the length of a window, both its ends
included. -/
def KeepsTo (n : UInt32) (w : Nat) (times : List Nat) : Prop :=
  ∀ a, times.countP (fun x => a ≤ x ∧ x ≤ a + w) ≤ n.toNat

theorem KeepsTo.of_append (h : KeepsTo n w (times ++ [now])) : KeepsTo n w times := by
  intro a
  have ha := h a
  rw [List.countP_append] at ha
  omega

theorem Open.held_lt (ho : Open n w times l) (hsorted : (times ++ [now]).Pairwise (· ≤ ·))
    (hfew : KeepsTo n w (times ++ [now])) :
    (l.held now).length < n.toNat ∧ (l.held now ++ [now]).Sublist (times ++ [now]) := by
  have hheld : l.held now = l.timestamps.dropWhile fun front => now - front > w := by
    simp only [held, ho.idle, ho.window]
  have hsub : (l.held now).Sublist times := by
    rw [hheld]
    exact (List.dropWhile_sublist _).trans ho.queue
  have hsub' : (l.held now ++ [now]).Sublist (times ++ [now]) := hsub.append_right [now]
  refine ⟨?_, hsub'⟩
  have hin : ∀ x ∈ l.held now ++ [now], decide (now - w ≤ x ∧ x ≤ now - w + w) = true := by
    intro x hx
    refine decide_eq_true ?_
    rcases List.mem_append.mp hx with hx | hx
    · have hle := le_last hsorted x (hsub.subset hx)
      rw [hheld] at hx
      have hge := le_of_mem_dropWhile ((sorted_of_append times now hsorted).sublist ho.queue) hx
      omega
    · rw [List.mem_singleton.mp hx]
      omega
  have hle := length_le_of_countP_le hsub' hin (hfew (now - w))
  rw [List.length_append, List.length_singleton] at hle
  omega

theorem Open.check (ho : Open n w times l) (hsorted : (times ++ [now]).Pairwise (· ≤ ·))
    (hfew : KeepsTo n w (times ++ [now])) :
    Open n w (times ++ [now]) (l.check now).1 ∧ (l.check now).2.allowed = true := by
  obtain ⟨hlt, hsub⟩ := ho.held_lt hsorted hfew
  rcases l.check_cases now with ⟨⟨u, hu, -⟩, -⟩ | ⟨-, hfull, -⟩ | ⟨-, -, hcheck⟩
  · cases ho.idle.symm.trans hu
  · rw [ho.limit] at hfull
    exact absurd ((toUInt32_lt_iff (Nat.le_of_lt hlt)).mpr hlt) (UInt32.not_lt.mpr hfull)
  · rw [hcheck]
    exact ⟨⟨ho.limit, ho.window, rfl, hsub⟩, rfl⟩

theorem never_rejected (hr : Machine.Runs step (new n w) times os l)
    (hsorted : times.Pairwise (· ≤ ·)) (hfew : KeepsTo n w times) :
    ∀ x ∈ os, x.2.allowed = true := by
  have hinv := hr.history_of (I := fun l times os =>
    Open n w times l ∧ ∀ x ∈ os, x.2.allowed = true)
    (K := fun times => times.Pairwise (· ≤ ·) ∧ KeepsTo n w times)
    (fun times now h => ⟨sorted_of_append times now h.1, h.2.of_append⟩) ?_ ?_
  · exact (hinv ⟨hsorted, hfew⟩).2
  · exact ⟨⟨rfl, rfl, rfl, List.Sublist.refl _⟩, nofun⟩
  · rintro l times os now l' o - ⟨hsorted, hfew⟩ ⟨hopen, hall⟩ h
    obtain ⟨hopen', hallowed⟩ := hopen.check hsorted hfew
    simp only [step, Option.some.injEq, Prod.mk.injEq] at h
    obtain ⟨rfl, rfl⟩ := h
    refine ⟨hopen', fun x hx => ?_⟩
    rcases List.mem_append.mp hx with hx | hx
    · exact hall x hx
    · rw [List.mem_singleton.mp hx]
      exact hallowed

theorem limit_check (l : RateLimiter) (now : Nat) :
    (l.check now).1.limitPerWindow = l.limitPerWindow := by
  rcases l.check_cases now with ⟨-, hcheck⟩ | ⟨-, -, hcheck⟩ | ⟨-, -, hcheck⟩
  · rw [hcheck]
  · rw [hcheck]
  · rw [hcheck]

theorem cooldown_of_rejected (hreject : (l.check t).2.allowed = false)
    (hout : ¬ l.InCooldown t) : (l.check t).1.cooldownUntil = some (t + l.window) := by
  rcases l.check_cases t with ⟨hin, -⟩ | ⟨-, -, hcheck⟩ | ⟨-, -, hcheck⟩
  · exact absurd hin hout
  · rw [hcheck]
  · rw [hcheck] at hreject
    cases hreject

theorem rejected_in_cooldown {cooldownEnd : Nat} (hl : l.cooldownUntil = some cooldownEnd)
    (hr : Machine.Runs step l times os l') (htimes : ∀ x ∈ times, x < cooldownEnd) :
    l' = l ∧ ∀ x ∈ os, x.2.allowed = false := by
  induction hr with
  | nil => exact ⟨rfl, nofun⟩
  | @cons l l₁ l' now times o os h _ ih =>
    have hcheck : l.check now = (l, ⟨false, true⟩) := by
      simp only [check, hl, if_pos (htimes now List.mem_cons_self)]
    simp only [step, hcheck, Option.some.injEq, Prod.mk.injEq] at h
    obtain ⟨rfl, rfl⟩ := h
    obtain ⟨hsame, hrejected⟩ := ih hl fun x hx => htimes x (List.mem_cons_of_mem _ hx)
    refine ⟨hsame, fun x hx => ?_⟩
    rcases List.mem_append.mp hx with hx | hx
    · rw [List.mem_singleton.mp hx]
    · exact hrejected x hx

/-- The first check after a cooldown is allowed, and counts alone. -/
theorem allowed_after_cooldown {cooldownEnd : Nat} (hl : l.cooldownUntil = some cooldownEnd)
    (hn : 0 < l.limitPerWindow) (ht : cooldownEnd ≤ t) :
    (l.check t).2.allowed = true ∧ (l.check t).1.timestamps = [t] := by
  have hheld : l.held t = [] := by
    simp only [held, hl]
    rfl
  rcases l.check_cases t with ⟨⟨u, hu, hlt⟩, -⟩ | ⟨-, hfull, -⟩ | ⟨-, -, hcheck⟩
  · cases hl.symm.trans hu
    omega
  · rw [hheld] at hfull
    exact absurd hn (UInt32.not_lt.mpr hfull)
  · rw [hcheck, hheld]
    exact ⟨rfl, rfl⟩

/-- At clock readings that never go back: a client that never makes more than `limit_per_window`
checks in a closed interval of the length of a window is never rejected. After a rejection outside
a cooldown at `t`, every check before `t + w` is rejected, and the first one from then on is
allowed and is the only one that counts. -/
theorem rejects_only_excess (hn : 0 < n) (hr : Machine.Runs step (new n w) times os l)
    (hsorted : times.Pairwise (· ≤ ·)) :
    (KeepsTo n w times → ∀ x ∈ os, x.2.allowed = true) ∧
    ∀ t, (l.check t).2.allowed = false → ¬ l.InCooldown t →
      ∀ between os' l', Machine.Runs step (l.check t).1 between os' l' →
        (∀ x ∈ between, x < t + w) →
        (∀ x ∈ os', x.2.allowed = false) ∧
        ∀ t', t + w ≤ t' → (l'.check t').2.allowed = true ∧ (l'.check t').1.timestamps = [t'] := by
  refine ⟨never_rejected hr hsorted, fun t hreject hout between os' l' hr' hbetween => ?_⟩
  have hcount := counting_of_run hr hsorted
  have hcool := cooldown_of_rejected hreject hout
  rw [hcount.window] at hcool
  obtain ⟨rfl, hrejected⟩ := rejected_in_cooldown hcool hr' hbetween
  have hlimit : 0 < (l.check t).1.limitPerWindow := by
    rw [limit_check, hcount.limit]
    exact hn
  exact ⟨hrejected, fun t' ht' => allowed_after_cooldown hcool hlimit ht'⟩

theorem rejects_only_excess_two_a_window :
    ∃ os l os' l', Machine.Runs step (new 2 10) [0, 1] os l ∧ (∀ x ∈ os, x.2.allowed = true) ∧
      (l.check 2).2.allowed = false ∧ Machine.Runs step (l.check 2).1 [3, 11] os' l' ∧
      (∀ x ∈ os', x.2.allowed = false) ∧ (l'.check 12).2.allowed = true := by
  have hrun : ∃ os l os' l', Machine.Runs step (new 2 10) [0, 1] os l ∧
      l.cooldownUntil = none ∧ (l.check 2).2.allowed = false ∧
      Machine.Runs step (l.check 2).1 [3, 11] os' l' :=
    ⟨_, _, _, _, Machine.run_sound rfl, rfl, rfl, Machine.run_sound rfl⟩
  obtain ⟨os, l, os', l', hr, hidle, hreject, hr'⟩ := hrun
  obtain ⟨hkept, hcool⟩ := rejects_only_excess (by decide) hr (by decide)
  have hfew : KeepsTo 2 10 [0, 1] := fun a => List.countP_le_length
  have hout : ¬ l.InCooldown 2 := by
    rintro ⟨u, hu, -⟩
    cases hidle.symm.trans hu
  obtain ⟨hrejected, hnext⟩ := hcool 2 hreject hout [3, 11] os' l' hr' (by decide)
  exact ⟨os, l, os', l', hr, hkept hfew, hreject, hr', hrejected, (hnext 12 (by decide)).1⟩

end RateLimiter

end Bloom
end Bakopa

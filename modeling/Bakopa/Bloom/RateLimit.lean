import Mathlib.Data.List.Basic

/-!
# Bakopa.Bloom.RateLimit

The per-connection limiter of `bloom/ws/src/rate_limit.rs`. Instants and durations are numbers of
nanoseconds; the reading of the clock is an argument. `duration_since` saturates, as subtraction
on `Nat` does.
-/

namespace Bakopa
namespace Bloom

structure RateLimitDecision where
  allowed : Bool
  shouldDrop : Bool
deriving DecidableEq, Repr

structure RateLimiter where
  limitPerWindow : UInt32
  window : Nat
  timestamps : List Nat
  cooldownUntil : Option Nat

structure RateLimitConfig where
  limitPerWindow : UInt32 := 20
  window : Nat := 1000000000

namespace RateLimiter

def new (limitPerWindow : UInt32) (window : Nat) : RateLimiter :=
  ⟨limitPerWindow, window, [], none⟩

def fromConfig (config : RateLimitConfig) : RateLimiter := new config.limitPerWindow config.window

/-- `check` outside a cooldown: prune, then count. -/
def checkWindow (l : RateLimiter) (now : Nat) : RateLimiter × RateLimitDecision :=
  let timestamps := l.timestamps.dropWhile fun front => now - front > l.window
  if timestamps.length.toUInt32 ≥ l.limitPerWindow then
    ({ l with timestamps, cooldownUntil := some (now + l.window) }, ⟨false, true⟩)
  else ({ l with timestamps := timestamps ++ [now] }, ⟨true, false⟩)

def check (l : RateLimiter) (now : Nat) : RateLimiter × RateLimitDecision :=
  match l.cooldownUntil with
  | some cooldownEnd =>
    if now < cooldownEnd then (l, ⟨false, true⟩)
    else checkWindow { l with cooldownUntil := none, timestamps := [] } now
  | none => checkWindow l now

theorem check_shouldDrop (l : RateLimiter) (now : Nat) :
    (l.check now).2.shouldDrop = !(l.check now).2.allowed := by
  simp only [check, checkWindow]
  split
  · split
    · rfl
    · split <;> rfl
  · split <;> rfl

end RateLimiter

end Bloom
end Bakopa

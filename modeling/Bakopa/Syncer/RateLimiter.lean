import Mathlib.Data.Finmap
import Bakopa.Syncer.Messages

/-!
# Bakopa.Syncer.RateLimiter

The fixed-window limiter of `syncer/src/rate_limiter.rs`. Instants and durations are numbers of
nanoseconds and the reading of the clock is an argument; `duration_since` saturates.
-/

namespace Bakopa
namespace Syncer

inductive RateLimitDecision where
  | allowed
  | rateLimited (streamKind : StreamKind)
deriving DecidableEq, Repr

structure WindowCounter where
  windowStart : Nat
  count : UInt32
deriving DecidableEq, Repr

/-- `limit` is a `NonZeroU32`. -/
structure RateLimiter where
  limit : UInt32
  limit_pos : 0 < limit
  window : Nat
  sessions : Finmap fun _ : String => WindowCounter

namespace RateLimiter

/-- Panics (`none`) on a limit of zero. -/
def new (limit : UInt32) (window : Nat) : Option RateLimiter :=
  if h : 0 < limit then some ⟨limit, h, window, ∅⟩ else none

def shouldReset (counter : WindowCounter) (now window : Nat) : Bool :=
  now - counter.windowStart ≥ window

def checkAndRecord (l : RateLimiter) (sessionId : String) (streamKind : StreamKind) (now : Nat) :
    RateLimiter × RateLimitDecision :=
  let counter := (l.sessions.lookup sessionId).getD ⟨now, 0⟩
  let counter := if shouldReset counter now l.window then ⟨now, 0⟩ else counter
  if counter.count < l.limit then
    ({ l with sessions := l.sessions.insert sessionId { counter with count := counter.count + 1 } },
      .allowed)
  else ({ l with sessions := l.sessions.insert sessionId counter }, .rateLimited streamKind)

/-- `HashMap::retain` -/
def retain (sessions : Finmap fun _ : String => WindowCounter) (keep : WindowCounter → Bool) :
    Finmap fun _ : String => WindowCounter where
  entries := sessions.entries.filter fun entry => keep entry.2
  nodupKeys := by
    obtain ⟨entries, hnodup⟩ := sessions
    induction entries using Quotient.inductionOn with
    | h l => exact List.NodupKeys.sublist List.filter_sublist hnodup

theorem lookup_retain (sessions : Finmap fun _ : String => WindowCounter)
    (keep : WindowCounter → Bool) (sessionId : String) :
    (retain sessions keep).lookup sessionId = (sessions.lookup sessionId).filter keep := by
  ext counter
  rw [← Option.mem_def, Finmap.mem_lookup_iff, Option.filter_eq_some_iff, ← Option.mem_def,
    Finmap.mem_lookup_iff]
  exact Multiset.mem_filter

def purgeInactive (l : RateLimiter) (now : Nat) : RateLimiter :=
  { l with sessions := retain l.sessions fun counter =>
      !shouldReset counter now l.window || counter.count > 0 }

theorem checkAndRecord_decision (l : RateLimiter) (sessionId : String) (streamKind : StreamKind)
    (now : Nat) : (l.checkAndRecord sessionId streamKind now).2 = .allowed ∨
      (l.checkAndRecord sessionId streamKind now).2 = .rateLimited streamKind := by
  unfold checkAndRecord
  dsimp only
  generalize (if shouldReset _ _ _ then _ else _ : WindowCounter) = counter
  split
  · exact .inl rfl
  · exact .inr rfl

end RateLimiter

end Syncer
end Bakopa

import BatchTransfer.Duration

/-!
# Repeating what failed

A retry policy says how often a failed call is repeated and how long to wait before each time: the
delay grows by a factor from one time to the next up to a bound, and is then moved by a jitter that
depends on the number of the attempt only. The formula is written for any kind of numbers, so that
it can be computed in floating point and read exactly.
-/

namespace BatchTransfer

/-- The operations on numbers in which delays are computed. -/
class DelayNumber (α : Type) extends Add α, Sub α, Mul α where
  ofNat : Nat → α
  ofScientific : Nat → Nat → α
  fraction : α → α
  smaller : α → α → α
  isPositive : α → Bool
  truncate : α → Nat

/-- The remainder of a number above its floor. -/
def floatFraction (x : Float) : Float := x - x.floor

/-- The smaller of two numbers, or the only one of them that is a number. -/
def floatSmaller (x y : Float) : Float :=
  if x.isNaN then y else if y.isNaN then x else if y < x then y else x

instance : DelayNumber Float where
  ofNat n := Float.ofNat n
  ofScientific m e := Float.ofScientific m true e
  fraction := floatFraction
  smaller := floatSmaller
  isPositive x := x > 0
  truncate x := x.toUInt64.toNat

/-- How often and after which delays a failed call is repeated. -/
structure RetryPolicy (α : Type) where
  maxRetries : Nat
  initialDelay : Duration
  maxDelay : Duration
  multiplier : α
  jitter : α

namespace RetryPolicy

variable {α : Type} [DelayNumber α]

open DelayNumber

/-- The power of a number by repeated squaring; `result` is multiplied in. -/
def powerTimes (result base : α) (exponent : Nat) : α :=
  let result := if exponent % 2 = 1 then result * base else result
  if exponent / 2 = 0 then result else powerTimes result (base * base) (exponent / 2)
termination_by exponent
decreasing_by omega

/-- The power of a number. -/
def power (base : α) (exponent : Nat) : α := powerTimes (ofNat 1) base exponent

/-- The delay before an attempt to repeat, without jitter: it grows by the multiplier from attempt
to attempt, over the first thirty of them, and is never above the greatest delay. -/
def cappedDelay (p : RetryPolicy α) (attempt : Nat) : α :=
  smaller (ofNat p.initialDelay.millis * power p.multiplier (min attempt 30 - 1))
    (ofNat p.maxDelay.millis)

/-- The golden ratio's fraction, to fifteen places. -/
def goldenFraction : α := ofScientific 618033988749895 15

/-- The number between -1 and 1 by which an attempt moves its delay, as a share of the jitter. -/
def jitterShare (attempt : Nat) : α :=
  fraction (ofNat attempt * (goldenFraction : α)) - ofScientific 5 1

/-- The delay before an attempt to repeat, in milliseconds. Attempts are counted from one; there is
no delay before the zeroth. -/
def delay (p : RetryPolicy α) (attempt : Nat) : Nat :=
  if attempt = 0 then 0
  else
    let capped := p.cappedDelay attempt
    let moved :=
      if isPositive p.jitter then capped * p.jitter * jitterShare attempt * ofNat 2 else ofNat 0
    truncate (capped + moved)

end RetryPolicy

/-- The policy in which delays are computed in floating point. -/
abbrev FloatRetryPolicy := RetryPolicy Float

namespace FloatRetryPolicy

/-- Three repetitions, after a tenth of a second and twice as long each time. -/
def standard : FloatRetryPolicy := ⟨3, .ofMillis 100, .ofSeconds 30, 2.0, 0.1⟩

/-- No repetition. -/
def never : FloatRetryPolicy := { standard with maxRetries := 0 }

/-- The same delay before every repetition. -/
def fixed (maxRetries : Nat) (delay : Duration) : FloatRetryPolicy :=
  ⟨maxRetries, delay, delay, 1.0, 0.0⟩

/-- A share brought between zero and one. -/
def clampShare (x : Float) : Float :=
  if x < 0.0 then 0.0 else if x > 1.0 then 1.0 else x

/-- The policy with a jitter brought between zero and one. -/
def withJitter (p : FloatRetryPolicy) (jitter : Float) : FloatRetryPolicy :=
  { p with jitter := clampShare jitter }

end FloatRetryPolicy

/-- The failures of one call so far, counted against a policy. -/
structure RetryBudget where
  maxRetries : Nat
  failures : Nat
  deriving DecidableEq, Repr, Inhabited

namespace RetryBudget

/-- The budget before the first failure. -/
def new (maxRetries : Nat) : RetryBudget := ⟨maxRetries, 0⟩

/-- The budget after one more failure. -/
def spend (b : RetryBudget) : RetryBudget := { b with failures := b.failures + 1 }

/-- Whether the last failure may be followed by another attempt. -/
def allows (b : RetryBudget) : Bool := b.failures ≤ b.maxRetries

/-- The attempts made so far: one for every failure counted, and at least one. -/
def attempts (b : RetryBudget) : Nat := max b.failures 1

/-- The repetitions granted so far. -/
def retries (b : RetryBudget) : Nat := min b.failures b.maxRetries

end RetryBudget

end BatchTransfer

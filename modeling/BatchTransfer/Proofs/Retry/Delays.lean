import BatchTransfer.Retry
import Mathlib.Data.Rat.Floor
import Mathlib.Tactic.Linarith
import Mathlib.Tactic.NormNum

/-!
# Delays and their bound

The delays of a retry policy, read exactly over the rationals and then cut to whole milliseconds.
The delay without jitter never falls from one attempt to the next and is never above the greatest
delay. The jitter is applied to it afterwards, and moves it to either side by at most its share
(`RetryPolicy.delays_stay_in_band`), so that a delay may be above the greatest one
(`RetryPolicy.not_delays_bounded`).
-/

namespace BatchTransfer

instance : DelayNumber ℚ where
  ofNat n := n
  ofScientific m e := m / 10 ^ e
  fraction := Int.fract
  smaller := min
  isPositive x := decide (0 < x)
  truncate x := ⌊x⌋₊

namespace RetryPolicy

/-! ### Growth -/

/-- Squaring repeatedly gives the power. -/
theorem powerTimes_eq (result base : ℚ) (exponent : Nat) :
    powerTimes result base exponent = result * base ^ exponent := by
  induction exponent using Nat.strong_induction_on generalizing result base with
  | _ exponent ih =>
    have hsquare : base ^ exponent = base ^ (exponent % 2) * (base * base) ^ (exponent / 2) := by
      rw [← pow_two, ← pow_mul, ← pow_add, Nat.mod_add_div]
    have hresult : (if exponent % 2 = 1 then result * base else result) =
        result * base ^ (exponent % 2) := by
      rcases Nat.mod_two_eq_zero_or_one exponent with h | h <;> simp [h]
    rw [powerTimes]
    change (if exponent / 2 = 0 then (if exponent % 2 = 1 then result * base else result)
      else powerTimes (if exponent % 2 = 1 then result * base else result) (base * base)
        (exponent / 2)) = _
    rw [hresult, hsquare, ← mul_assoc]
    split
    · rename_i hhalf
      rw [hhalf, pow_zero, mul_one]
    · exact ih (exponent / 2) (by omega) _ _

theorem power_eq (base : ℚ) (exponent : Nat) : power base exponent = base ^ exponent := by
  rw [power, powerTimes_eq]
  change ((1 : Nat) : ℚ) * _ = _
  rw [Nat.cast_one, one_mul]

variable {p : RetryPolicy ℚ} {attempt later : Nat}

/-- Without jitter, the delay is that of the growth, up to the greatest one. -/
theorem cappedDelay_eq (p : RetryPolicy ℚ) (attempt : Nat) :
    p.cappedDelay attempt =
      min (p.initialDelay.millis * p.multiplier ^ (min attempt 30 - 1)) p.maxDelay.millis := by
  rw [cappedDelay, power_eq]
  rfl

theorem cappedDelay_le (p : RetryPolicy ℚ) (attempt : Nat) :
    p.cappedDelay attempt ≤ p.maxDelay.millis := by
  rw [cappedDelay_eq]
  exact min_le_right _ _

theorem cappedDelay_nonneg (h : 0 ≤ p.multiplier) : 0 ≤ p.cappedDelay attempt := by
  rw [cappedDelay_eq]
  exact le_min (mul_nonneg (Nat.cast_nonneg _) (pow_nonneg h _)) (Nat.cast_nonneg _)

/-- Without jitter, delays do not fall. -/
theorem cappedDelay_mono (h : 1 ≤ p.multiplier) (hlater : attempt ≤ later) :
    p.cappedDelay attempt ≤ p.cappedDelay later := by
  rw [cappedDelay_eq, cappedDelay_eq]
  refine min_le_min_right _ (mul_le_mul_of_nonneg_left ?_ (Nat.cast_nonneg _))
  exact pow_le_pow_right₀ h (by omega)

/-! ### Jitter -/

theorem jitterShare_eq (attempt : Nat) : (jitterShare attempt : ℚ) =
    Int.fract (attempt * (((618033988749895 : Nat) : ℚ) / 10 ^ 15)) - ((5 : Nat) : ℚ) / 10 ^ 1 :=
  rfl

/-- The share of the jitter is between minus a half and a half. -/
theorem jitterShare_bounds (attempt : Nat) :
    -1 ≤ 2 * (jitterShare attempt : ℚ) ∧ 2 * (jitterShare attempt : ℚ) < 1 := by
  have hnonneg := Int.fract_nonneg ((attempt : ℚ) * (((618033988749895 : Nat) : ℚ) / 10 ^ 15))
  have hlt := Int.fract_lt_one ((attempt : ℚ) * (((618033988749895 : Nat) : ℚ) / 10 ^ 15))
  rw [jitterShare_eq]
  push_cast at *
  constructor <;> linarith

/-- The delay is that without jitter, moved by a share of the jitter and cut. -/
theorem delay_eq (hjitter : 0 ≤ p.jitter) (hattempt : attempt ≠ 0) : p.delay attempt =
    ⌊p.cappedDelay attempt * (1 + p.jitter * (2 * jitterShare attempt))⌋₊ := by
  have hdelay : p.delay attempt = ⌊p.cappedDelay attempt +
      (if decide (0 < p.jitter) = true then
        p.cappedDelay attempt * p.jitter * jitterShare attempt * ((2 : Nat) : ℚ)
      else ((0 : Nat) : ℚ))⌋₊ := by
    rw [delay, if_neg hattempt]
    rfl
  rw [hdelay]
  congr 1
  rcases hjitter.eq_or_lt with hzero | hpositive
  · simp [← hzero]
  · rw [if_pos (decide_eq_true hpositive)]
    push_cast
    ring

theorem delay_zero (p : RetryPolicy ℚ) : p.delay 0 = 0 := rfl

/-- The jitter moves a delay to either side by at most its share. -/
theorem moved_bounds (attempt : Nat) (hjitter : 0 ≤ p.jitter) (hmultiplier : 0 ≤ p.multiplier) :
    p.cappedDelay attempt * (1 - p.jitter) ≤
        p.cappedDelay attempt * (1 + p.jitter * (2 * jitterShare attempt)) ∧
      p.cappedDelay attempt * (1 + p.jitter * (2 * jitterShare attempt)) ≤
        p.cappedDelay attempt * (1 + p.jitter) := by
  have hcapped : 0 ≤ p.cappedDelay attempt := cappedDelay_nonneg hmultiplier
  obtain ⟨hlow, hhigh⟩ := jitterShare_bounds attempt
  have hdown : p.jitter * -1 ≤ p.jitter * (2 * jitterShare attempt) :=
    mul_le_mul_of_nonneg_left hlow hjitter
  have hup : p.jitter * (2 * jitterShare attempt) ≤ p.jitter * 1 :=
    mul_le_mul_of_nonneg_left hhigh.le hjitter
  constructor
  · exact mul_le_mul_of_nonneg_left (by linarith) hcapped
  · exact mul_le_mul_of_nonneg_left (by linarith) hcapped

/-- An attempt whose share of the jitter is not positive does not wait longer than the greatest
delay. -/
theorem delay_le_of_jitterShare (hjitter : 0 ≤ p.jitter) (hmultiplier : 0 ≤ p.multiplier)
    (hshare : p.jitter * (2 * jitterShare attempt) ≤ 0) :
    p.delay attempt ≤ p.maxDelay.millis := by
  by_cases hattempt : attempt = 0
  · rw [hattempt, delay_zero]
    exact Nat.zero_le _
  · rw [delay_eq hjitter hattempt]
    refine Nat.floor_le_of_le ?_
    calc p.cappedDelay attempt * (1 + p.jitter * (2 * jitterShare attempt))
      _ ≤ p.cappedDelay attempt * 1 :=
        mul_le_mul_of_nonneg_left (by linarith) (cappedDelay_nonneg hmultiplier)
      _ ≤ p.maxDelay.millis := by
        rw [mul_one]
        exact p.cappedDelay_le attempt

/-- Without jitter, the delays are those of the growth and do not fall. -/
theorem delay_mono (hjitter : p.jitter = 0) (hmultiplier : 1 ≤ p.multiplier) :
    Monotone p.delay := by
  intro attempt later hlater
  by_cases hattempt : attempt = 0
  · rw [hattempt, delay_zero]
    exact Nat.zero_le _
  · rw [delay_eq hjitter.ge hattempt, delay_eq hjitter.ge (by omega), hjitter, zero_mul, zero_mul,
      add_zero, mul_one, mul_one]
    exact Nat.floor_mono (cappedDelay_mono hmultiplier hlater)

/-- The delay that grows from attempt to attempt does not fall and is never above the greatest
delay. The jitter moves it by at most its share, so that an attempt waits no longer than the
greatest delay and that share of it, and no longer than the greatest delay itself where it is moved
down. Without jitter, no attempt waits longer than the greatest delay, and none less than those
before. -/
theorem delays_stay_in_band (p : RetryPolicy ℚ) (hjitter : 0 ≤ p.jitter ∧ p.jitter ≤ 1)
    (hmultiplier : 1 ≤ p.multiplier) :
    (∀ attempt later, attempt ≤ later → p.cappedDelay attempt ≤ p.cappedDelay later) ∧
      (∀ attempt, p.cappedDelay attempt ≤ p.maxDelay.millis) ∧
      (∀ attempt, attempt ≠ 0 →
        p.cappedDelay attempt * (1 - p.jitter) - 1 < p.delay attempt ∧
          p.delay attempt ≤ p.cappedDelay attempt * (1 + p.jitter)) ∧
      (∀ attempt, (p.delay attempt : ℚ) ≤ p.maxDelay.millis * (1 + p.jitter)) ∧
      (∀ attempt, jitterShare attempt ≤ (0 : ℚ) → p.delay attempt ≤ p.maxDelay.millis) ∧
      (p.jitter = 0 → (∀ attempt, p.delay attempt ≤ p.maxDelay.millis) ∧ Monotone p.delay) := by
  obtain ⟨hnonneg, hone⟩ := hjitter
  have hpositive : 0 ≤ p.multiplier := zero_le_one.trans hmultiplier
  have hband : ∀ attempt, attempt ≠ 0 →
      p.cappedDelay attempt * (1 - p.jitter) - 1 < p.delay attempt ∧
        p.delay attempt ≤ p.cappedDelay attempt * (1 + p.jitter) := by
    intro attempt hattempt
    obtain ⟨hlow, hhigh⟩ := moved_bounds attempt hnonneg hpositive
    have hmoved : 0 ≤ p.cappedDelay attempt * (1 - p.jitter) :=
      mul_nonneg (cappedDelay_nonneg hpositive) (sub_nonneg.mpr hone)
    rw [delay_eq hnonneg hattempt]
    constructor
    · exact (sub_le_sub_right hlow 1).trans_lt (Nat.sub_one_lt_floor _)
    · exact (Nat.floor_le (hmoved.trans hlow)).trans hhigh
  refine ⟨fun _ _ => cappedDelay_mono hmultiplier, p.cappedDelay_le, hband, fun attempt => ?_,
    fun attempt hshare => ?_, fun hzero => ⟨fun attempt => ?_, delay_mono hzero hmultiplier⟩⟩
  · have hbound : (0 : ℚ) ≤ 1 + p.jitter := by linarith
    by_cases hattempt : attempt = 0
    · rw [hattempt, delay_zero, Nat.cast_zero]
      exact mul_nonneg (Nat.cast_nonneg _) hbound
    · exact (hband attempt hattempt).2.trans
        (mul_le_mul_of_nonneg_right (p.cappedDelay_le attempt) hbound)
  · refine delay_le_of_jitterShare hnonneg hpositive (mul_nonpos_of_nonneg_of_nonpos hnonneg ?_)
    linarith
  · refine delay_le_of_jitterShare hnonneg hpositive ?_
    rw [hzero, zero_mul]

/-- The policy that is used where nothing else is said. -/
def standard : RetryPolicy ℚ := ⟨3, .ofMillis 100, .ofSeconds 30, 2, 1 / 10⟩

theorem delays_stay_in_band_standard :
    (0 ≤ standard.jitter ∧ standard.jitter ≤ 1) ∧ 1 ≤ standard.multiplier ∧
      (∀ attempt, (standard.delay attempt : ℚ) ≤
        standard.maxDelay.millis * (1 + standard.jitter)) := by
  have hjitter : 0 ≤ standard.jitter ∧ standard.jitter ≤ 1 := by norm_num [standard]
  have hmultiplier : 1 ≤ standard.multiplier := by norm_num [standard]
  exact ⟨hjitter, hmultiplier, (delays_stay_in_band standard hjitter hmultiplier).2.2.2.1⟩

/-- The eleventh attempt has reached the greatest delay and is moved up by the jitter. -/
theorem not_delays_bounded :
    ¬ ∀ p : RetryPolicy ℚ, 0 ≤ p.jitter ∧ p.jitter ≤ 1 → 1 ≤ p.multiplier →
      p.initialDelay.micros ≤ p.maxDelay.micros →
        (∀ attempt, p.delay attempt ≤ p.maxDelay.millis) ∧
          (p.jitter = 0 → Monotone p.delay) := by
  intro hall
  have hjitter : 0 ≤ standard.jitter ∧ standard.jitter ≤ 1 := by norm_num [standard]
  have hbounded := (hall standard hjitter (by norm_num [standard]) (by decide)).1 11
  have hcapped : standard.cappedDelay 11 = 30000 := by
    rw [cappedDelay_eq]
    norm_num [standard, Duration.millis, Duration.ofMillis, Duration.ofSeconds]
  have hshare : (jitterShare 11 : ℚ) = 298373876248845 / 10 ^ 15 := by
    rw [jitterShare_eq, Int.fract]
    norm_num
  have hdelay : 31790 ≤ standard.delay 11 := by
    rw [delay_eq hjitter.1 (by decide), hcapped, hshare]
    exact Nat.le_floor (by norm_num [standard])
  have hgreatest : standard.maxDelay.millis = 30000 := by decide
  omega

end RetryPolicy

end BatchTransfer

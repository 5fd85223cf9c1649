import Mathlib.Algebra.Order.Archimedean.Basic
import Mathlib.Data.Int.Log
import Mathlib.Data.Rat.Floor
import Mathlib.Tactic.FieldSimp
import Mathlib.Tactic.Linarith
import Mathlib.Tactic.Positivity
import Mathlib.Tactic.Ring

/-!
# Rounding to 64-bit floats

A finite 64-bit float is a rational number with 53 bits of significand, and an operation is
the exact one rounded to the nearest float, ties to even. Exponents are not bounded, so
what is said here is about results that neither overflow nor underflow.
-/

namespace VmWatcher

/-- The nearest integer, the even one of two. -/
def roundHalfEven (x : ℚ) : ℤ :=
  ⌊x⌋ + if Int.fract x < 1 / 2 then 0 else if 1 / 2 < Int.fract x then 1 else ⌊x⌋ % 2

theorem abs_roundHalfEven_sub_le (x : ℚ) : |roundHalfEven x - x| ≤ 1 / 2 := by
  have split_x := Int.floor_add_fract x
  have low := Int.fract_nonneg x
  have high := Int.fract_lt_one x
  rw [abs_le, roundHalfEven]
  push_cast
  by_cases under : Int.fract x < 1 / 2
  · rw [if_pos under]
    constructor <;> linarith
  · by_cases above : 1 / 2 < Int.fract x
    · rw [if_neg under, if_pos above]
      constructor <;> linarith
    · rw [if_neg under, if_neg above]
      rcases Int.emod_two_eq_zero_or_one ⌊x⌋ with even | odd
      · rw [even, Int.cast_zero]
        constructor <;> linarith
      · rw [odd, Int.cast_one]
        constructor <;> linarith

@[simp] theorem roundHalfEven_intCast (n : ℤ) : roundHalfEven n = n := by
  simp [roundHalfEven]

/-- Rounding does not go beyond an integer. -/
theorem abs_roundHalfEven_le {x : ℚ} {n : ℕ} (h : |x| < n) : |roundHalfEven x| ≤ n := by
  obtain ⟨near, near'⟩ := abs_le.mp (abs_roundHalfEven_sub_le x)
  obtain ⟨low, high⟩ := abs_lt.mp h
  have upper : (roundHalfEven x : ℚ) < n + 1 := by linarith
  have lower : -(n + 1 : ℚ) < roundHalfEven x := by linarith
  rw [abs_le]
  constructor
  · have : -(n + 1 : ℤ) < roundHalfEven x := by exact_mod_cast lower
    omega
  · have : roundHalfEven x < (n + 1 : ℤ) := by exact_mod_cast upper
    omega

namespace Binary64

/-- The place of the last bit of the floats of this size. -/
def ulp (x : ℚ) : ℚ := 2 ^ (Int.log 2 |x| - 52)

/-- The nearest float. -/
def round (x : ℚ) : ℚ := roundHalfEven (x / ulp x) * ulp x

/-- What a float can be. -/
def IsFloat (x : ℚ) : Prop := ∃ m e : ℤ, |m| ≤ 2 ^ 53 ∧ x = m * 2 ^ e

def ofNat (n : ℕ) : ℚ := round n

def mul (x y : ℚ) : ℚ := round (x * y)

def div (x y : ℚ) : ℚ := round (x / y)

variable {x : ℚ}

theorem ulp_pos (x : ℚ) : 0 < ulp x := zpow_pos (by norm_num) _

@[simp] theorem round_zero : round 0 = 0 := by
  have zero : (0 : ℚ) / ulp 0 = (0 : ℤ) := by simp
  rw [round, zero, roundHalfEven_intCast]
  simp

theorem abs_lt_ulp_mul (x : ℚ) : |x| < ulp x * 2 ^ 53 := by
  have bound := Int.lt_zpow_succ_log_self (b := 2) (by norm_num) |x|
  have size : ulp x * 2 ^ 53 = ((2 : ℕ) : ℚ) ^ (Int.log 2 |x| + 1) := by
    rw [ulp, ← zpow_natCast (2 : ℚ) 53, ← zpow_add₀ (by norm_num)]
    congr 1
    push_cast
    ring
  rwa [size]

theorem ulp_le (h : x ≠ 0) : ulp x * 2 ^ 52 ≤ |x| := by
  have bound := Int.zpow_log_le_self (b := 2) (by norm_num) (abs_pos.mpr h)
  have size : ulp x * 2 ^ 52 = ((2 : ℕ) : ℚ) ^ Int.log 2 |x| := by
    rw [ulp, ← zpow_natCast (2 : ℚ) 52, ← zpow_add₀ (by norm_num)]
    congr 1
    push_cast
    ring
  rwa [size]

/-- Rounding is off by at most `2⁻⁵³` of the size. -/
theorem abs_round_sub_le (x : ℚ) : |round x - x| ≤ |x| / 2 ^ 53 := by
  by_cases h : x = 0
  · simp [h]
  · have size := ulp_le h
    have positive := ulp_pos x
    have near := abs_roundHalfEven_sub_le (x / ulp x)
    have scaled : round x - x = (roundHalfEven (x / ulp x) - x / ulp x) * ulp x := by
      rw [round]
      field_simp
    rw [scaled, abs_mul, abs_of_pos positive]
    calc |roundHalfEven (x / ulp x) - x / ulp x| * ulp x
        ≤ 1 / 2 * ulp x := mul_le_mul_of_nonneg_right near positive.le
      _ ≤ |x| / 2 ^ 53 := by
          rw [le_div_iff₀ (by norm_num)]
          linarith

theorem round_le (h : 0 ≤ x) : round x ≤ x * (1 + 1 / 2 ^ 53) := by
  have near := (abs_le.mp (abs_round_sub_le x)).2
  rw [abs_of_nonneg h] at near
  linarith

theorem isFloat_round (x : ℚ) : IsFloat (round x) := by
  refine ⟨roundHalfEven (x / ulp x), Int.log 2 |x| - 52, ?_, rfl⟩
  have positive := ulp_pos x
  have bound := abs_roundHalfEven_le (x := x / ulp x) (n := 2 ^ 53) (by
    rw [abs_div, abs_of_pos positive, div_lt_iff₀ positive, mul_comm]
    exact_mod_cast abs_lt_ulp_mul x)
  exact_mod_cast bound

theorem isFloat_ofNat {n : ℕ} (h : n ≤ 2 ^ 53) : IsFloat n := by
  refine ⟨n, 0, ?_, by simp⟩
  rw [abs_of_nonneg (Int.natCast_nonneg n)]
  exact_mod_cast h

theorem IsFloat.mul_two_pow (h : IsFloat x) (k : ℤ) : IsFloat (x * 2 ^ k) := by
  obtain ⟨m, e, small, rfl⟩ := h
  exact ⟨m, e + k, small, by rw [zpow_add₀ (by norm_num), mul_assoc]⟩

/-- A float is its own rounding. -/
theorem IsFloat.round_eq (h : IsFloat x) : round x = x := by
  obtain ⟨m, e, small, rfl⟩ := h
  by_cases zero : m = 0
  · simp [zero]
  set x : ℚ := m * 2 ^ e with hx
  have nonzero : x ≠ 0 := mul_ne_zero (by exact_mod_cast zero) (zpow_ne_zero e (by norm_num))
  have size : |x| ≤ 2 ^ (53 + e) := by
    have mantissa : |(m : ℚ)| ≤ 2 ^ 53 := by exact_mod_cast small
    rw [hx, abs_mul, abs_of_pos (zpow_pos (by norm_num : (0 : ℚ) < 2) e), zpow_add₀ (by norm_num)]
    exact mul_le_mul_of_nonneg_right (by exact_mod_cast mantissa) (zpow_pos (by norm_num) e).le
  -- the last place of the float is not beyond its exponent, or the significand is `2 ^ 53`
  have exponent : Int.log 2 |x| ≤ 53 + e := by
    have le := (Int.zpow_log_le_self (b := 2) (by norm_num) (abs_pos.mpr nonzero)).trans size
    exact (zpow_le_zpow_iff_right₀ (by norm_num : (1 : ℚ) < 2)).mp (by exact_mod_cast le)
  have whole : ∃ n : ℤ, x / ulp x = n := by
    rcases exponent.lt_or_eq with below | top
    · obtain ⟨k, hk⟩ := Int.eq_ofNat_of_zero_le (show 0 ≤ e - (Int.log 2 |x| - 52) by omega)
      refine ⟨m * 2 ^ k, ?_⟩
      rw [hx, ulp, mul_div_assoc, ← zpow_sub₀ (by norm_num), ← hx, hk]
      push_cast
      rfl
    · have full := Int.zpow_log_le_self (b := 2) (by norm_num) (abs_pos.mpr nonzero)
      rw [top] at full
      have equal : |x| = 2 ^ (53 + e) := le_antisymm size (by exact_mod_cast full)
      have place : ulp x * 2 ^ 52 = 2 ^ (53 + e) := by
        rw [ulp, top, ← zpow_natCast (2 : ℚ) 52, ← zpow_add₀ (by norm_num)]
        congr 1
        push_cast
        ring
      have positive := ulp_pos x
      rcases abs_choice x with same | opposite
      · refine ⟨2 ^ 52, (div_eq_iff positive.ne').mpr ?_⟩
        push_cast
        linarith
      · refine ⟨-2 ^ 52, (div_eq_iff positive.ne').mpr ?_⟩
        push_cast
        linarith
  obtain ⟨n, hn⟩ := whole
  rw [round, hn, roundHalfEven_intCast, ← hn, div_mul_cancel₀ _ (ulp_pos x).ne']

theorem ofNat_eq {n : ℕ} (h : n ≤ 2 ^ 53) : ofNat n = n := (isFloat_ofNat h).round_eq

end Binary64

end VmWatcher

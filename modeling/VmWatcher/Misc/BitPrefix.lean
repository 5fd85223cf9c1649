import Mathlib.Algebra.Order.Group.Nat
import Mathlib.Data.Nat.Bitwise
import Mathlib.Tactic.Ring

/-!
# Leading bits and aligned blocks

Two numbers of `w` bits agree on their first `n` bits exactly when they lie in the same
aligned block of `2 ^ (w - n)` numbers. Aligned blocks are nested or apart.
-/

namespace VmWatcher

/-- The first `n` of the `w` bits of a number, most significant first. -/
def leadingBits (w n x : ℕ) : List Bool := (List.range n).map fun i => x.testBit (w - 1 - i)

theorem take_leadingBits {w n m x : ℕ} (h : n ≤ m) :
    (leadingBits w m x).take n = leadingBits w n x := by
  rw [leadingBits, ← List.map_take, List.take_range, min_eq_left h]
  rfl

/-- Only the low bits of the number matter. -/
theorem leadingBits_mod (w x : ℕ) : leadingBits w w (x % 2 ^ w) = leadingBits w w x := by
  apply List.map_congr_left
  intro i hi
  have hi := List.mem_range.mp hi
  have low : w - 1 - i < w := by omega
  rw [Nat.testBit_mod_two_pow, decide_eq_true low, Bool.true_and]

/-- The bits of a number, high part first. -/
theorem leadingBits_add (w v x : ℕ) :
    leadingBits (w + v) (w + v) x = leadingBits w w (x / 2 ^ v) ++ leadingBits v v x := by
  simp only [leadingBits, List.range_add, List.map_append, List.map_map]
  congr 1
  · apply List.map_congr_left
    intro i hi
    have hi := List.mem_range.mp hi
    have place : w + v - 1 - i = w - 1 - i + v := by omega
    rw [place, Nat.testBit_div_two_pow]
  · apply List.map_congr_left
    intro i hi
    have hi := List.mem_range.mp hi
    have place : w + v - 1 - (w + i) = v - 1 - i := by omega
    rw [Function.comp_apply, place]

theorem leadingBits_eq_iff {w n x y : ℕ} (hn : n ≤ w) (hx : x < 2 ^ w) (hy : y < 2 ^ w) :
    leadingBits w n x = leadingBits w n y ↔ x / 2 ^ (w - n) = y / 2 ^ (w - n) := by
  rw [leadingBits, leadingBits, List.map_inj_left]
  constructor
  · intro h
    apply Nat.eq_of_testBit_eq
    intro i
    rw [Nat.testBit_div_two_pow, Nat.testBit_div_two_pow]
    by_cases hi : i < n
    · have bit := h (n - 1 - i) (List.mem_range.mpr (by omega))
      have place : w - 1 - (n - 1 - i) = i + (w - n) := by omega
      rwa [place] at bit
    · have high : 2 ^ w ≤ 2 ^ (i + (w - n)) := Nat.pow_le_pow_right (by decide) (by omega)
      rw [Nat.testBit_lt_two_pow (hx.trans_le high), Nat.testBit_lt_two_pow (hy.trans_le high)]
  · intro h i hi
    have hi := List.mem_range.mp hi
    have bits := congrArg (fun q => q.testBit (n - 1 - i)) h
    simp only [Nat.testBit_div_two_pow] at bits
    have place : n - 1 - i + (w - n) = w - 1 - i := by omega
    rwa [place] at bits

/-- Aligned blocks are nested or apart: one that starts inside another, after its first
number, ends inside. -/
theorem block_end_le {a b x y : ℕ} (hx : 2 ^ a ∣ x) (hy : 2 ^ b ∣ y) (after : x < y)
    (inside : y < x + 2 ^ a) : y + 2 ^ b ≤ x + 2 ^ a := by
  rcases Nat.le_total a b with wide | narrow
  · have hy := (Nat.pow_dvd_pow 2 wide).trans hy
    obtain ⟨q, rfl⟩ := hx
    obtain ⟨r, rfl⟩ := hy
    have more := Nat.lt_of_mul_lt_mul_left after
    have none : 2 ^ a * (q + 1) ≤ 2 ^ a * r := Nat.mul_le_mul_left _ more
    rw [Nat.mul_add, Nat.mul_one] at none
    omega
  · have hend : 2 ^ b ∣ x + 2 ^ a :=
      Nat.dvd_add ((Nat.pow_dvd_pow 2 narrow).trans hx) (Nat.pow_dvd_pow 2 narrow)
    obtain ⟨q, hq⟩ := hend
    obtain ⟨r, rfl⟩ := hy
    rw [hq] at inside ⊢
    have more := Nat.lt_of_mul_lt_mul_left inside
    have fits : 2 ^ b * (r + 1) ≤ 2 ^ b * q := Nat.mul_le_mul_left _ more
    rwa [Nat.mul_add, Nat.mul_one] at fits

/-- The numbers in the block of an aligned one. -/
theorem div_eq_div_iff_of_dvd {a b x : ℕ} (hb : 0 < b) (aligned : b ∣ a) :
    x / b = a / b ↔ a ≤ x ∧ x < a + b := by
  obtain ⟨q, rfl⟩ := aligned
  rw [Nat.mul_div_cancel_left q hb, Nat.div_eq_iff hb]
  constructor
  · intro h
    obtain ⟨low, high⟩ := h
    have : b * q = q * b := by ring
    omega
  · intro h
    obtain ⟨low, high⟩ := h
    have : b * q = q * b := by ring
    omega

end VmWatcher

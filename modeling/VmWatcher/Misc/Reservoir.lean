import Mathlib.Data.Nat.Basic
import Mathlib.Tactic.Ring

/-!
# Reservoirs filled and drained at a constant rate

A reservoir of capacity `cap` that gains (`refill`) or loses (`drain`) `rate` units
for every tick of elapsed time, computed the way integer code computes it: once the
elapsed time reaches `cap / rate`, rounded down, the reservoir jumps to its end.
Rounding down makes that jump early by less than one tick's worth, which is the
only place the two forms give more than `rate` per tick (`refill_le`, `le_drain`).
-/

namespace VmWatcher.Reservoir

variable {cap rate elapsed x y : ℕ}

/-- The elapsed time from which on the reservoir is taken to have reached its end. -/
abbrev FullTime (cap rate elapsed : ℕ) : Prop := cap / rate ≤ elapsed

/-- What is in a reservoir that held `x` after it gained for `elapsed` ticks. -/
def refill (cap rate elapsed x : ℕ) : ℕ :=
  if FullTime cap rate elapsed then cap else min cap (x + elapsed * rate)

/-- What is in a reservoir that held `x` after it lost for `elapsed` ticks. -/
def drain (cap rate elapsed x : ℕ) : ℕ :=
  if FullTime cap rate elapsed then 0 else x - elapsed * rate

theorem refill_le_cap : refill cap rate elapsed x ≤ cap := by
  unfold refill
  split
  · exact le_rfl
  · exact min_le_left _ _

theorem drain_le : drain cap rate elapsed x ≤ x := by
  unfold drain
  split
  · exact Nat.zero_le _
  · exact Nat.sub_le _ _

/-- Below the full time the product of elapsed time and rate fits the capacity. -/
theorem mul_lt_cap_of_not_fullTime (h : ¬ FullTime cap rate elapsed) :
    (elapsed + 1) * rate ≤ cap := by
  have hlt : elapsed < cap / rate := Nat.lt_of_not_le h
  calc (elapsed + 1) * rate ≤ cap / rate * rate := Nat.mul_le_mul_right rate hlt
    _ ≤ cap := Nat.div_mul_le_self cap rate

/-- At the full time the capacity is paid for up to less than one tick's worth. -/
theorem cap_le_of_fullTime (hrate : 0 < rate) (h : FullTime cap rate elapsed) :
    cap ≤ elapsed * rate + (rate - 1) := by
  have hmod : cap % rate < rate := Nat.mod_lt cap hrate
  calc cap = cap / rate * rate + cap % rate := (Nat.div_add_mod' cap rate).symm
    _ ≤ elapsed * rate + (rate - 1) :=
      Nat.add_le_add (Nat.mul_le_mul_right rate h) (Nat.le_pred_of_lt hmod)

/-- A refill adds at most the rate per tick, and less than one tick more when it
jumps to the capacity. -/
theorem refill_le (cap elapsed x : ℕ) (hrate : 0 < rate) :
    refill cap rate elapsed x ≤
      x + (elapsed * rate + if FullTime cap rate elapsed then rate - 1 else 0) := by
  unfold refill
  split
  next full =>
    have := cap_le_of_fullTime hrate full
    omega
  next => exact min_le_right _ _

/-- A drain takes at most the rate per tick, and less than one tick more when it
jumps to empty. -/
theorem le_drain (elapsed : ℕ) (hrate : 0 < rate) (hx : x ≤ cap) :
    x ≤ drain cap rate elapsed x +
      (elapsed * rate + if FullTime cap rate elapsed then rate - 1 else 0) := by
  unfold drain
  split
  next full =>
    have := cap_le_of_fullTime hrate full
    omega
  next => omega

/-- What one reservoir gains the other loses: two reservoirs that share the capacity
keep sharing it. -/
theorem refill_add_drain (h : x + y = cap) :
    refill cap rate elapsed x + drain cap rate elapsed y = cap := by
  unfold refill drain
  split
  · omega
  · omega

/-- From the full time on both reservoirs are at their ends whatever they held. -/
theorem refill_of_fullTime (h : FullTime cap rate elapsed) :
    refill cap rate elapsed x = cap := if_pos h

theorem refill_of_not_fullTime (h : ¬ FullTime cap rate elapsed) :
    refill cap rate elapsed x = min cap (x + elapsed * rate) := if_neg h

theorem drain_of_fullTime (h : FullTime cap rate elapsed) :
    drain cap rate elapsed x = 0 := if_pos h

theorem drain_of_not_fullTime (h : ¬ FullTime cap rate elapsed) :
    drain cap rate elapsed x = x - elapsed * rate := if_neg h

theorem fullTime_mul_rate {room : ℕ} (hrate : 0 < rate) :
    FullTime (rate * room) rate elapsed ↔ room ≤ elapsed := by
  unfold FullTime
  rw [Nat.mul_div_cancel_left room hrate]

/-- A content that is a whole number of ticks' worth drains tick by tick. -/
theorem drain_mul_rate {held room : ℕ} (hrate : 0 < rate) (h : held ≤ room) :
    drain (rate * room) rate elapsed (rate * held) = rate * (held - elapsed) := by
  by_cases full : FullTime (rate * room) rate elapsed
  · have : held - elapsed = 0 := by
      have := (fullTime_mul_rate hrate).mp full
      omega
    rw [drain_of_fullTime full, this, Nat.mul_zero]
  · rw [drain_of_not_fullTime full, Nat.mul_comm elapsed rate, ← Nat.mul_sub]

end VmWatcher.Reservoir

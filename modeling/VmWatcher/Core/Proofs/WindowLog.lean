import VmWatcher.Core.Window
import VmWatcher.Misc.RingLog
import Mathlib.Algebra.Order.Group.Nat
import Mathlib.Tactic.GCongr
import Mathlib.Tactic.Linarith

/-!
# What a rolling window holds

A window is a bounded log of the samples added since it was last empty: its ring holds
the latest of them, `observed` counts them up to the size of the ring, and `total` never
exceeds their sum.
-/

namespace VmWatcher

theorem sum_set_add {ring : List ℕ} {cursor : ℕ} (h : cursor < ring.length) (e : ℕ) :
    (ring.set cursor e).sum + ring.get ⟨cursor, h⟩ = ring.sum + e := by
  have parts : ring.sum = (ring.take cursor).sum + (ring.get ⟨cursor, h⟩ +
      (ring.drop (cursor + 1)).sum) := by
    conv_lhs => rw [← List.take_append_drop cursor ring, List.drop_eq_getElem_cons h]
    rw [List.sum_append, List.sum_cons]
    rfl
  rw [List.sum_set, if_pos h, parts]
  omega

namespace RollingWindow

/-- The window holds the latest of these samples, oldest first. -/
structure Logs (w : RollingWindow) (log : List ℕ) : Prop where
  holds : RingLog.Holds 0 w.ring w.head log
  observed : w.observed = min log.length w.ring.length
  total_le : w.total ≤ w.ring.sum

/-- The samples of the window, oldest first. -/
def samples (w : RollingWindow) : List ℕ := w.ring.rotate w.head

variable {w : RollingWindow} {log : List ℕ}

@[simp] theorem length_samples : w.samples.length = w.ring.length := List.length_rotate ..

@[simp] theorem sum_samples : w.samples.sum = w.ring.sum := (List.rotate_perm _ _).sum_eq

@[simp] theorem length_ring_add (delta : ℕ) : (w.add delta).ring.length = w.ring.length :=
  List.length_set

theorem logs_new (windowSecs tickSecs : ℕ) : (new windowSecs tickSecs).Logs [] :=
  ⟨RingLog.holds_blank, (Nat.zero_min _).symm, Nat.zero_le _⟩

theorem logs_reset (w : RollingWindow) : w.reset.Logs [] :=
  ⟨RingLog.holds_blank, (Nat.zero_min _).symm, Nat.zero_le _⟩

theorem Logs.add (h : w.Logs log) (delta : ℕ) : (w.add delta).Logs (log ++ [delta]) := by
  have length : (w.add delta).ring.length = w.ring.length := length_ring_add delta
  refine ⟨?_, ?_, ?_⟩
  · have written := h.holds.write (e := delta) w.head_lt
    rw [← RingLog.holds_mod] at written
    rwa [List.length_set] at written
  · have observed := h.observed
    rw [length, List.length_append, List.length_singleton]
    change (if w.observed < w.ring.length then w.observed + 1 else w.observed) = _
    split <;> omega
  · have replaced := sum_set_add w.head_lt delta
    have before := h.total_le
    have oldest : w.ring.get ⟨w.head, w.head_lt⟩ ≤ w.ring.sum := List.le_sum_of_mem (List.get_mem ..)
    have bound : (w.add delta).total ≤ w.total - w.ring.get ⟨w.head, w.head_lt⟩ + delta :=
      Nat.min_le_left _ _
    have ring : (w.add delta).ring = w.ring.set w.head delta := rfl
    rw [ring]
    omega

/-- An empty window holds no sample. -/
theorem Logs.observed_eq_zero_iff (h : w.Logs log) : w.observed = 0 ↔ log = [] := by
  have size := Nat.zero_lt_of_lt w.head_lt
  rw [h.observed, ← List.length_eq_zero_iff]
  omega

theorem Logs.isFull_iff (h : w.Logs log) : w.isFull = true ↔ w.ring.length ≤ log.length := by
  rw [isFull, decide_eq_true_eq, h.observed]
  omega

/-- The samples of a full window are the latest that were added. -/
theorem Logs.samples_suffix (h : w.Logs log) (full : w.isFull = true) : w.samples <:+ log := by
  have enough := h.isFull_iff.mp full
  have last : w.samples = log.drop (log.length - w.ring.length) := by
    refine h.holds.trans ?_
    rw [RingLog.lastOf, List.drop_append, List.length_replicate,
      List.drop_eq_nil_of_le (by simpa using enough), List.nil_append]
  rw [last]
  exact List.drop_suffix _ _

/-- How long a full window has observed. -/
theorem Logs.secs_eq (h : w.Logs log) (full : w.isFull = true) :
    min w.observed w.ring.length * w.tickSecs = w.ring.length * w.tickSecs := by
  have := h.isFull_iff.mp full
  rw [h.observed]
  congr 1
  omega

/-- The average of a full window, compared exactly. -/
theorem Logs.reachesExactly_iff (h : w.Logs log) (full : w.isFull = true) (tick : 0 < w.tickSecs)
    (triggerBps : ℕ) :
    w.reachesExactly triggerBps = true ↔
      triggerBps * (w.ring.length * w.tickSecs) ≤ w.total * 8 := by
  have size := Nat.zero_lt_of_lt w.head_lt
  have secs : w.ring.length * w.tickSecs ≠ 0 := (Nat.mul_pos size tick).ne'
  rw [reachesExactly, h.secs_eq full]
  simp only [secs, if_false, decide_eq_true_eq]

/-- The float of a full window is at most the average with two roundings up. -/
theorem Logs.averageF64_le (h : w.Logs log) (full : w.isFull = true) (tick : 0 < w.tickSecs)
    (short : w.ring.length * w.tickSecs ≤ 2 ^ 53) :
    w.averageF64 ≤
      w.total * (1 + 1 / 2 ^ 53) * 8 / (w.ring.length * w.tickSecs : ℕ) * (1 + 1 / 2 ^ 53) := by
  have size := Nat.zero_lt_of_lt w.head_lt
  have secs : w.ring.length * w.tickSecs ≠ 0 := (Nat.mul_pos size tick).ne'
  have rounded : Binary64.ofNat w.total ≤ w.total * (1 + 1 / 2 ^ 53) :=
    Binary64.round_le (Nat.cast_nonneg _)
  have positive : 0 ≤ Binary64.ofNat w.total := by
    have near := (abs_le.mp (Binary64.abs_round_sub_le (w.total : ℚ))).1
    have small := div_le_self (abs_nonneg (w.total : ℚ)) (by norm_num : (1 : ℚ) ≤ 2 ^ 53)
    rw [Nat.abs_cast] at near small
    show 0 ≤ Binary64.round _
    linarith
  -- multiplying by eight is exact
  have eightfold : Binary64.mul (Binary64.ofNat w.total) 8 = Binary64.ofNat w.total * 8 := by
    have float := (Binary64.isFloat_round (w.total : ℚ)).mul_two_pow 3
    have eight : (2 : ℚ) ^ (3 : ℤ) = 8 := by norm_num
    rw [eight] at float
    exact float.round_eq
  simp only [averageF64, h.secs_eq full, secs, if_false, eightfold, Binary64.ofNat_eq short]
  refine (Binary64.round_le (by positivity)).trans ?_
  gcongr

/-- A full window that reaches a trigger line in floats reaches it up to one unit of time,
if it is not too many units long. -/
theorem Logs.reached (h : w.Logs log) (full : w.isFull = true) (tick : 0 < w.tickSecs)
    {triggerBps : ℕ} (trigger : triggerBps ≤ 2 ^ 53) (reached : w.reaches triggerBps = true)
    (unit : ℕ) (positive : 0 < unit) (short : w.ring.length * w.tickSecs * unit ≤ 2 ^ 52) :
    triggerBps * (w.ring.length * w.tickSecs * unit - 1) ≤ w.total * 8 * unit := by
  have size := Nat.zero_lt_of_lt w.head_lt
  set secs := w.ring.length * w.tickSecs with hsecs
  have some_secs : (0 : ℚ) < secs := by exact_mod_cast Nat.mul_pos size tick
  have few : secs ≤ 2 ^ 53 := by
    have := Nat.le_mul_of_pos_right secs positive
    omega
  have average := h.averageF64_le full tick few
  rw [reaches, decide_eq_true_eq, Binary64.ofNat_eq trigger] at reached
  rw [← hsecs] at average
  have line : (triggerBps * secs : ℚ) ≤ w.total * 8 * (1 + 1 / 2 ^ 53) ^ 2 := by
    have le := reached.trans average
    rw [div_mul_eq_mul_div, le_div_iff₀ some_secs] at le
    linarith
  have units : (secs * unit : ℚ) ≤ 2 ^ 52 := by exact_mod_cast short
  have least : 1 ≤ secs * unit := Nat.mul_pos (Nat.mul_pos size tick) positive
  have goal : (triggerBps * (secs * unit - 1) : ℚ) ≤ w.total * 8 * unit := by
    -- two roundings up lose no more than one part in `2 ^ 52`
    have lost : (triggerBps * secs : ℚ) * (1 - 1 / 2 ^ 52) ≤ w.total * 8 := by
      have nonneg : (0 : ℚ) ≤ w.total := Nat.cast_nonneg _
      have factor : ((1 : ℚ) + 1 / 2 ^ 53) ^ 2 * (1 - 1 / 2 ^ 52) ≤ 1 := by norm_num
      calc (triggerBps * secs : ℚ) * (1 - 1 / 2 ^ 52)
          ≤ w.total * 8 * (1 + 1 / 2 ^ 53) ^ 2 * (1 - 1 / 2 ^ 52) :=
            mul_le_mul_of_nonneg_right line (by norm_num)
        _ = w.total * 8 * ((1 + 1 / 2 ^ 53) ^ 2 * (1 - 1 / 2 ^ 52)) := by ring
        _ ≤ w.total * 8 := mul_le_of_le_one_right (by positivity) factor
    have share : (triggerBps * (secs * unit) : ℚ) / 2 ^ 52 ≤ triggerBps := by
      rw [div_le_iff₀ (by norm_num)]
      exact mul_le_mul_of_nonneg_left units (Nat.cast_nonneg _)
    have scaled := mul_le_mul_of_nonneg_right lost ((Nat.cast_nonneg unit : (0 : ℚ) ≤ unit))
    linarith
  have cast : ((triggerBps * (secs * unit - 1) : ℕ) : ℚ) = triggerBps * (secs * unit - 1) := by
    push_cast [least]
    ring
  exact_mod_cast cast.trans_le goal

end RollingWindow

end VmWatcher

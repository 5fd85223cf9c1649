import VmWatcher.Core.Proofs.WindowLog
import Mathlib.Data.List.Induction
import Mathlib.Data.List.Infix
import Mathlib.Data.Rat.Cast.Order
import Mathlib.Tactic.NormNum

/-!
# The rolling window against its specification

A `WindowSpec` is what a rolling window is meant to be: its two parameters and the list
of everything added since it was last empty. The ring, with its running total, shows the
same to whoever reads it, after any operations whose samples fit a word.
-/

namespace VmWatcher

namespace RollingWindow

/-- `average_bps`, without the rounding of a float. -/
def averageBps (w : RollingWindow) : ℚ :=
  let secs := min w.observed w.ring.length * w.tickSecs
  if secs = 0 then 0 else (w.total * 8 : ℚ) / secs

/-- The comparison of the average with a whole number of bits per second. -/
theorem reachesExactly_iff_averageBps (w : RollingWindow) (triggerBps : ℕ) :
    w.reachesExactly triggerBps = true ↔ (triggerBps : ℚ) ≤ w.averageBps := by
  unfold reachesExactly averageBps
  dsimp only
  by_cases idle : min w.observed w.ring.length * w.tickSecs = 0
  · rw [if_pos idle, if_pos idle, decide_eq_true_eq]
    constructor
    · intro h
      rw [h, Nat.cast_zero]
    · intro h
      exact Nat.le_zero.mp (by exact_mod_cast h)
  · have positive : (0 : ℚ) < (min w.observed w.ring.length * w.tickSecs : ℕ) := by
      exact_mod_cast Nat.pos_of_ne_zero idle
    rw [if_neg idle, if_neg idle, decide_eq_true_eq, le_div_iff₀ positive]
    exact_mod_cast Iff.rfl

end RollingWindow

/-- The operations on a window. -/
inductive WindowOp where
  | add (deltaBytes : ℕ)
  | reset
  | resize (windowSecs tickSecs : ℕ)
  deriving DecidableEq, Repr

def RollingWindow.apply (w : RollingWindow) : WindowOp → RollingWindow
  | .add deltaBytes => w.add deltaBytes
  | .reset => w.reset
  | .resize windowSecs tickSecs => w.resize windowSecs tickSecs

/-- The window as a list: its parameters and what was added since it was last empty,
oldest first. -/
structure WindowSpec where
  windowSecs : ℕ
  tickSecs : ℕ
  added : List ℕ
  deriving DecidableEq, Repr

namespace WindowSpec

def new (windowSecs tickSecs : ℕ) : WindowSpec := ⟨windowSecs, tickSecs, []⟩

def apply (s : WindowSpec) : WindowOp → WindowSpec
  | .add deltaBytes => { s with added := s.added ++ [deltaBytes] }
  | .reset => { s with added := [] }
  | .resize windowSecs tickSecs => new windowSecs tickSecs

/-- How many samples the window covers. -/
def size (s : WindowSpec) : ℕ := min 3600 (max 1 (s.windowSecs / max 1 s.tickSecs))

/-- The samples the window covers: the last of those added. -/
def latest (s : WindowSpec) : List ℕ := s.added.drop (s.added.length - s.size)

variable {s : WindowSpec}

theorem size_pos (s : WindowSpec) : 0 < s.size := by
  unfold size
  omega

/-- The seconds covered are no more than the window or one tick, so they fit a word. -/
theorem secs_le (s : WindowSpec) :
    min s.added.length s.size * max 1 s.tickSecs ≤ max s.windowSecs (max 1 s.tickSecs) := by
  have covered : min s.added.length s.size ≤ max 1 (s.windowSecs / max 1 s.tickSecs) := by
    unfold size
    omega
  have whole : s.windowSecs / max 1 s.tickSecs * max 1 s.tickSecs ≤ s.windowSecs :=
    Nat.div_mul_le_self ..
  rcases Nat.le_total 1 (s.windowSecs / max 1 s.tickSecs) with h | h
  · rw [Nat.max_eq_right h] at covered
    exact (Nat.mul_le_mul_right _ covered).trans (whole.trans (Nat.le_max_left ..))
  · rw [Nat.max_eq_left h] at covered
    refine (Nat.mul_le_mul_right _ covered).trans ?_
    rw [Nat.one_mul]
    exact Nat.le_max_right ..

end WindowSpec

/-- The ring holds what the specification says, and its total is exact. -/
structure Meets (w : RollingWindow) (s : WindowSpec) : Prop where
  logs : w.Logs s.added
  size : w.ring.length = s.size
  tick : w.tickSecs = max 1 s.tickSecs
  total : w.total = w.ring.sum

namespace Meets

variable {w : RollingWindow} {s : WindowSpec}

theorem new (windowSecs tickSecs : ℕ) :
    Meets (.new windowSecs tickSecs) (.new windowSecs tickSecs) := by
  refine ⟨RollingWindow.logs_new _ _, ?_, Nat.max_comm .., ?_⟩
  · have size : RollingWindow.sampleCount windowSecs tickSecs =
        (WindowSpec.new windowSecs tickSecs).size := by
      unfold RollingWindow.sampleCount WindowSpec.size WindowSpec.new maxSamples
      rw [Nat.max_comm tickSecs, Nat.max_comm _ 1, Nat.min_comm]
    rw [← size]
    exact List.length_replicate
  · simp [RollingWindow.new]

theorem reset (h : Meets w s) : Meets w.reset (s.apply .reset) := by
  refine ⟨RollingWindow.logs_reset w, ?_, h.tick, ?_⟩
  · exact List.length_replicate.trans h.size
  · simp [RollingWindow.reset]

theorem sum_ring (h : Meets w s) : w.ring.sum = s.latest.sum := by
  have held := h.logs.holds.sum_map id rfl
  rwa [List.map_id, List.map_id, h.size] at held

/-- An add whose samples fit a word leaves the total exact. -/
theorem add (h : Meets w s) {delta : ℕ} (fits : (s.apply (.add delta)).latest.sum ≤ u64Max) :
    Meets (w.add delta) (s.apply (.add delta)) := by
  have next : Meets { w.add delta with total := (w.add delta).ring.sum }
      (s.apply (.add delta)) := by
    have logs := h.logs.add delta
    refine ⟨⟨logs.holds, logs.observed, le_refl _⟩, ?_, h.tick, rfl⟩
    exact (w.length_ring_add delta).trans h.size
  have replaced : (w.add delta).ring.sum + w.ring.get ⟨w.head, w.head_lt⟩ = w.ring.sum + delta :=
    sum_set_add w.head_lt delta
  have oldest : w.ring.get ⟨w.head, w.head_lt⟩ ≤ w.ring.sum := List.le_sum_of_mem (List.get_mem ..)
  have bound : (w.add delta).ring.sum ≤ u64Max := next.sum_ring ▸ fits
  refine ⟨h.logs.add delta, next.size, next.tick, ?_⟩
  change min (w.total - w.ring.get ⟨w.head, w.head_lt⟩ + delta) u64Max = _
  rw [h.total]
  omega

theorem apply (h : Meets w s) (op : WindowOp) (fits : (s.apply op).latest.sum ≤ u64Max) :
    Meets (w.apply op) (s.apply op) := by
  cases op with
  | add delta => exact h.add fits
  | reset => exact h.reset
  | resize windowSecs tickSecs => exact new windowSecs tickSecs

/-- A run whose samples fit a word at every moment. -/
theorem run (windowSecs tickSecs : ℕ) (ops : List WindowOp)
    (fits : ∀ before, before <+: ops →
      (before.foldl WindowSpec.apply (.new windowSecs tickSecs)).latest.sum ≤ u64Max) :
    Meets (ops.foldl RollingWindow.apply (.new windowSecs tickSecs))
      (ops.foldl WindowSpec.apply (.new windowSecs tickSecs)) := by
  induction ops using List.reverseRecOn with
  | nil => exact new windowSecs tickSecs
  | append_singleton ops op ih =>
    have before := ih fun xs hxs => fits xs (hxs.trans (List.prefix_append _ _))
    have after := fits _ (List.prefix_refl _)
    rw [List.foldl_append] at after
    rw [List.foldl_append, List.foldl_append]
    exact before.apply op after

theorem observed (h : Meets w s) :
    min w.observed w.ring.length = min s.added.length s.size := by
  rw [h.logs.observed, h.size]
  omega

theorem averageBps (h : Meets w s) :
    w.averageBps = if s.added = [] then 0 else
      (s.latest.sum * 8 : ℚ) / (min s.added.length s.size * max 1 s.tickSecs : ℕ) := by
  unfold RollingWindow.averageBps
  dsimp only
  rw [h.observed, h.tick, h.total, h.sum_ring]
  by_cases empty : s.added = []
  · rw [if_pos empty, if_pos]
    rw [empty, List.length_nil, Nat.zero_min, Nat.zero_mul]
  · have some := List.length_pos_iff.mpr empty
    have size := s.size_pos
    have covered : 0 < min s.added.length s.size * max 1 s.tickSecs :=
      Nat.mul_pos (by omega) (by omega)
    rw [if_neg empty, if_neg covered.ne']

end Meets

namespace RollingWindow

/-- A rolling window equals its specification: as long as the samples held fit a word, the
total is the sum of the latest samples and of the ring alike, the window is full once as
many samples as it covers were added, and the average is that of the latest samples over
the time they took, which fits a word where the parameters do. -/
theorem window_meets_spec (windowSecs tickSecs : ℕ) (ops : List WindowOp)
    (fits : ∀ before, before <+: ops →
      (before.foldl WindowSpec.apply (.new windowSecs tickSecs)).latest.sum ≤ u64Max) :
    let w := ops.foldl RollingWindow.apply (.new windowSecs tickSecs)
    let s := ops.foldl WindowSpec.apply (.new windowSecs tickSecs)
    w.total = s.latest.sum ∧ w.total = w.ring.sum ∧
      (w.isFull = true ↔ s.size ≤ s.added.length) ∧
      w.averageBps = (if s.added = [] then 0 else
        (s.latest.sum * 8 : ℚ) / (min s.added.length s.size * max 1 s.tickSecs : ℕ)) ∧
      min w.observed w.ring.length * w.tickSecs ≤ max s.windowSecs (max 1 s.tickSecs) := by
  have meets := Meets.run windowSecs tickSecs ops fits
  refine ⟨meets.total.trans meets.sum_ring, meets.total, ?_, meets.averageBps, ?_⟩
  · rw [meets.logs.isFull_iff, meets.size]
  · rw [meets.observed, meets.tick]
    exact WindowSpec.secs_le _

/-- A window of two samples after a reset and three adds. -/
theorem window_meets_spec_wrap :
    let w := [WindowOp.add 5, .reset, .add 10, .add 20, .add 40].foldl RollingWindow.apply (.new 2 1)
    w.total = 60 ∧ w.isFull = true ∧ w.averageBps = 240 := by
  let ops : List WindowOp := [.add 5, .reset, .add 10, .add 20, .add 40]
  have fits : ∀ before ∈ ops.inits,
      (before.foldl WindowSpec.apply (.new 2 1)).latest.sum ≤ u64Max := by decide
  obtain ⟨total, -, full, average, -⟩ := window_meets_spec 2 1 ops fun before hbefore =>
    fits before ((List.mem_inits before ops).mpr hbefore)
  have latest : (ops.foldl WindowSpec.apply (.new 2 1)).latest = [20, 40] := by decide
  have secs : min (ops.foldl WindowSpec.apply (.new 2 1)).added.length
      (ops.foldl WindowSpec.apply (.new 2 1)).size *
      max 1 (ops.foldl WindowSpec.apply (.new 2 1)).tickSecs = 2 := by decide
  refine ⟨total.trans (latest ▸ rfl), full.mpr (by decide), average.trans ?_⟩
  rw [if_neg (by decide), latest, secs]
  norm_num

end RollingWindow

end VmWatcher

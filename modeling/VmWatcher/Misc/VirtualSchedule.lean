import VmWatcher.Misc.Mealy

/-!
# Virtual scheduling

A virtual scheduler keeps one number, the theoretical arrival time. An arrival of
some cost moves it on by that cost from the later of itself and the present, and is
admitted when it stays within `tol` of the present. Over any ordered time the
admitted costs of a stretch are bounded by the time it took plus the tolerance,
whatever order the clock readings inside the stretch come in (`charged_le`).
-/

namespace VmWatcher.VirtualSchedule

variable {T ι : Type} [AddCommMonoid T] [LinearOrder T]

/-- A scheduler with tolerance `tol` for arrivals that come at `now` and cost `cost`. -/
def step (tol : T) (now cost : ι → T) : Mealy T ι Bool := fun tat k =>
  if max (now k) tat + cost k ≤ now k + tol then (max (now k) tat + cost k, true)
  else (tat, false)

variable {tol tat : T} {now cost : ι → T} {k : ι}

/-- What an arrival is charged: its cost when it is admitted. -/
def charge (tol : T) (now cost : ι → T) (tat : T) (k : ι) : T :=
  if (step tol now cost tat k).2 then cost k else 0

theorem step_admitted (h : max (now k) tat + cost k ≤ now k + tol) :
    step tol now cost tat k = (max (now k) tat + cost k, true) := if_pos h

theorem step_rejected (h : ¬ max (now k) tat + cost k ≤ now k + tol) :
    step tol now cost tat k = (tat, false) := if_neg h

theorem admitted_iff :
    (step tol now cost tat k).2 = true ↔ max (now k) tat + cost k ≤ now k + tol := by
  by_cases h : max (now k) tat + cost k ≤ now k + tol
  · simp [step_admitted h, h]
  · simp [step_rejected h, h]

/-- An admitted arrival leaves the arrival time within the tolerance of the present. -/
theorem step_le_of_admitted (h : (step tol now cost tat k).2 = true) :
    (step tol now cost tat k).1 ≤ now k + tol := by
  have hle := admitted_iff.mp h
  rw [step_admitted hle]
  exact hle

/-- The arrival time never runs ahead of a bound on the clock by more than the tolerance. -/
theorem step_le {t : T} (ht : now k + tol ≤ t) (htat : tat ≤ t) :
    (step tol now cost tat k).1 ≤ t := by
  by_cases h : max (now k) tat + cost k ≤ now k + tol
  · rw [step_admitted h]
    exact h.trans ht
  · rw [step_rejected h]
    exact htat

variable [IsOrderedAddMonoid T]

/-- Every step pays its charge out of the distance the arrival time has moved, seen
from any moment `t` no later than the arrival. -/
theorem charge_le_step {t : T} (ht : t ≤ now k) :
    max t tat + charge tol now cost tat k ≤ max t (step tol now cost tat k).1 := by
  by_cases h : max (now k) tat + cost k ≤ now k + tol
  · simp only [charge, step_admitted h, if_true]
    calc max t tat + cost k ≤ max (now k) tat + cost k := by gcongr
      _ ≤ max t (max (now k) tat + cost k) := le_max_right _ _
  · simp [charge, step_rejected h]

/-- The charges of a stretch are covered by the distance the arrival time moved. -/
theorem charged_le_stateAfter (tol : T) (now cost : ι → T) {t : T} (ks : List ι) (tat : T)
    (hks : ∀ k ∈ ks, t ≤ now k) :
    max t tat + (step tol now cost).spent (charge tol now cost) tat ks ≤
      max t ((step tol now cost).stateAfter tat ks) := by
  induction ks generalizing tat with
  | nil => simp
  | cons k ks ih =>
    obtain ⟨hk, hks⟩ := List.forall_mem_cons.mp hks
    have first : max t tat + charge tol now cost tat k ≤ max t (step tol now cost tat k).1 :=
      charge_le_step hk
    have rest := ih (step tol now cost tat k).1 hks
    simp only [Mealy.spent_cons, Mealy.stateAfter_cons]
    rw [← add_assoc]
    exact (add_le_add_left first _).trans rest

/-- The charges of a stretch that ends in an admission are at most the time from any
moment before the stretch to its end, plus the tolerance. -/
theorem charged_le {t : T} {ks : List ι} {last : ι} (htol : 0 ≤ tol)
    (hks : ∀ k ∈ ks ++ [last], t ≤ now k)
    (hlast : (step tol now cost ((step tol now cost).stateAfter tat ks) last).2 = true) :
    t + (step tol now cost).spent (charge tol now cost) tat (ks ++ [last]) ≤ now last + tol := by
  have moved := charged_le_stateAfter tol now cost (ks ++ [last]) tat hks
  rw [Mealy.stateAfter_append] at moved
  have hend : max t (step tol now cost ((step tol now cost).stateAfter tat ks) last).1 ≤
      now last + tol :=
    max_le ((hks last (by simp)).trans (le_add_of_nonneg_right htol)) (step_le_of_admitted hlast)
  calc t + (step tol now cost).spent (charge tol now cost) tat (ks ++ [last])
      ≤ max t tat + (step tol now cost).spent (charge tol now cost) tat (ks ++ [last]) := by
        gcongr
        exact le_max_left _ _
    _ ≤ now last + tol := moved.trans hend

end VmWatcher.VirtualSchedule

import Mathlib.Data.List.Basic

/-!
# Streaks

A log lists what has happened, newest first. Whether an event is a hit may depend on
everything before it. `streak hit log` counts the latest events that were hits, one
after the other, and `le_streak_iff` says what a counter that reached `n` has seen.
-/

namespace VmWatcher

variable {α : Type} {hit : List α → α → Prop} {log : List α} {n : ℕ}

/-- The latest `n` events were hits. -/
def Lasts (hit : List α → α → Prop) (n : ℕ) (log : List α) : Prop :=
  n ≤ log.length ∧ ∀ later x before, log = later ++ x :: before → later.length < n → hit before x

theorem lasts_zero : Lasts hit 0 log :=
  ⟨Nat.zero_le _, fun _ _ _ _ h => absurd h (Nat.not_lt_zero _)⟩

theorem lasts_succ_cons {x : α} :
    Lasts hit (n + 1) (x :: log) ↔ hit log x ∧ Lasts hit n log := by
  constructor
  · intro given
    obtain ⟨enough, hits⟩ := given
    refine ⟨hits [] x log rfl (Nat.succ_pos n), Nat.le_of_succ_le_succ enough, ?_⟩
    intro later y before h short
    exact hits (x :: later) y before (by rw [h, List.cons_append]) (Nat.succ_lt_succ short)
  · intro given
    obtain ⟨first, enough, hits⟩ := given
    refine ⟨Nat.succ_le_succ enough, ?_⟩
    intro later y before h short
    cases later with
    | nil =>
      obtain ⟨rfl, rfl⟩ := List.cons.inj h
      exact first
    | cons z later =>
      exact hits later y before (List.cons.inj h).2 (Nat.lt_of_succ_lt_succ short)

variable [∀ before x, Decidable (hit before x)]

/-- How many of the latest events were hits, up to the first that was not. -/
def streak (hit : List α → α → Prop) [∀ before x, Decidable (hit before x)] : List α → ℕ
  | [] => 0
  | x :: before => if hit before x then streak hit before + 1 else 0

theorem streak_le_length : streak hit log ≤ log.length := by
  induction log with
  | nil => exact Nat.le_refl 0
  | cons x log ih =>
    rw [streak]
    split
    · exact Nat.succ_le_succ ih
    · exact Nat.zero_le _

/-- The streak has reached `n` when the latest `n` events were hits. -/
theorem le_streak_iff : n ≤ streak hit log ↔ Lasts hit n log := by
  induction log generalizing n with
  | nil =>
    cases n with
    | zero => exact iff_of_true (Nat.le_refl 0) lasts_zero
    | succ n => exact iff_of_false (Nat.not_succ_le_zero n) fun h => Nat.not_succ_le_zero n h.1
  | cons x log ih =>
    cases n with
    | zero => exact iff_of_true (Nat.zero_le _) lasts_zero
    | succ n =>
      rw [lasts_succ_cons, streak]
      by_cases h : hit log x
      · rw [if_pos h, Nat.succ_le_succ_iff, ih]
        exact (and_iff_right h).symm
      · rw [if_neg h]
        exact iff_of_false (Nat.not_succ_le_zero n) fun both => h both.1

end VmWatcher

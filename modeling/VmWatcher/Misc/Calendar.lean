import Mathlib.Algebra.GroupWithZero.Nat
import Mathlib.Data.Nat.Notation
import Mathlib.Order.Monotone.Basic
import Mathlib.Tactic.IntervalCases

/-!
# The Gregorian calendar

A date is followed by the next one. Counting days is easier where the year begins in March:
leap days are then at the ends of years, and the months before February are of two lengths in
a pattern that repeats.
-/

namespace VmWatcher

namespace Calendar

structure Date where
  year : ℕ
  month : ℕ
  day : ℕ
  deriving DecidableEq, Repr

/-- Every fourth year is a leap year, of the full centuries every fourth. -/
def IsLeap (year : ℕ) : Prop := 4 ∣ year ∧ (¬ 100 ∣ year ∨ 400 ∣ year)

instance (year : ℕ) : Decidable (IsLeap year) := inferInstanceAs (Decidable (_ ∧ _))

def daysIn (year month : ℕ) : ℕ :=
  if month = 2 then if IsLeap year then 29 else 28
  else if month = 4 ∨ month = 6 ∨ month = 9 ∨ month = 11 then 30
  else 31

def Date.next (d : Date) : Date :=
  if d.day < daysIn d.year d.month then { d with day := d.day + 1 }
  else if d.month < 12 then ⟨d.year, d.month + 1, 1⟩
  else ⟨d.year + 1, 1, 1⟩

/-- The date so many days later. -/
def Date.after (d : Date) : ℕ → Date
  | 0 => d
  | n + 1 => (d.after n).next

/-- A day of a month of the year. -/
structure Date.Valid (d : Date) : Prop where
  month_pos : 1 ≤ d.month
  month_le : d.month ≤ 12
  day_pos : 1 ≤ d.day
  day_le : d.day ≤ daysIn d.year d.month

theorem daysIn_pos (year month : ℕ) : 1 ≤ daysIn year month := by
  unfold daysIn
  split
  · split <;> omega
  · split <;> omega

theorem daysIn_le (year month : ℕ) : daysIn year month ≤ 31 := by
  unfold daysIn
  split
  · split <;> omega
  · split <;> omega

namespace Date

variable {d : Date}

theorem Valid.next (h : d.Valid) : d.next.Valid := by
  obtain ⟨month_pos, month_le, day_pos, day_le⟩ := h
  unfold Date.next
  split
  · exact ⟨month_pos, month_le, Nat.le_add_left 1 _, by assumption⟩
  · split
    · exact ⟨Nat.le_add_left 1 _, by assumption, Nat.le_refl 1, daysIn_pos _ _⟩
    · exact ⟨Nat.le_refl 1, Nat.le_add_left 1 11, Nat.le_refl 1, daysIn_pos _ _⟩

theorem Valid.after (h : d.Valid) (n : ℕ) : (d.after n).Valid := by
  induction n with
  | zero => exact h
  | succ n ih => exact ih.next

/-- Dates in their order, with room for months of 31 days. -/
def rank (d : Date) : ℕ := (d.year * 12 + (d.month - 1)) * 31 + (d.day - 1)

theorem Valid.rank_next (h : d.Valid) : d.rank < d.next.rank := by
  have days := daysIn_le d.year d.month
  obtain ⟨month_pos, month_le, day_pos, day_le⟩ := h
  unfold Date.next
  split
  · simp only [rank]
    omega
  · split
    · simp only [rank]
      omega
    · simp only [rank]
      omega

/-- Later days have later dates. -/
theorem Valid.rank_strictMono (h : d.Valid) : StrictMono fun n => (d.after n).rank :=
  strictMono_nat_of_lt_succ fun n => (h.after n).rank_next

theorem Valid.after_injective (h : d.Valid) : Function.Injective d.after := by
  intro m n same
  exact h.rank_strictMono.injective (congrArg rank same)

end Date

/-! ### Years from March -/

/-- The days before the year that begins in the March of `year`. -/
def marchStart (year : ℕ) : ℕ := 365 * year + year / 4 - year / 100 + year / 400

/-- The days of the year that begins in the March of `year`. -/
def marchLength (year : ℕ) : ℕ := if IsLeap (year + 1) then 366 else 365

/-- The days of such a year before its month `mp`. -/
def monthStart (mp : ℕ) : ℕ := (153 * mp + 2) / 5

/-- Its month `mp`, as the calendar counts. -/
def marchMonth (mp : ℕ) : ℕ := if mp < 10 then mp + 3 else mp - 9

/-- The date of the day of a year that begins in March, both counted from zero. -/
def marchDate (year doy : ℕ) : Date :=
  let mp := (5 * doy + 2) / 153
  ⟨if marchMonth mp ≤ 2 then year + 1 else year, marchMonth mp, doy - monthStart mp + 1⟩

theorem marchStart_succ (year : ℕ) : marchStart (year + 1) = marchStart year + marchLength year := by
  have few : year / 100 ≤ year := Nat.div_le_self _ _
  simp only [marchStart, marchLength, IsLeap, Nat.succ_div]
  generalize year / 400 = e
  generalize year / 100 = c at few
  generalize year / 4 = q
  by_cases century : 100 ∣ year + 1
  · have fourth : 4 ∣ year + 1 := Dvd.dvd.trans (by decide) century
    by_cases era : 400 ∣ year + 1
    · simp only [century, fourth, era, if_true, not_true, or_true, and_true]
      omega
    · simp only [century, fourth, era, if_true, if_false, not_true, or_false, and_false]
      omega
  · have era : ¬ 400 ∣ year + 1 := fun h => century (Dvd.dvd.trans (by decide) h)
    by_cases fourth : 4 ∣ year + 1
    · simp only [century, fourth, era, if_true, if_false, not_false_iff, true_or, and_true]
      omega
    · simp only [century, fourth, era, if_false, false_and]
      omega

/-- The years repeat after 400 of them. -/
theorem marchStart_add (year era : ℕ) :
    marchStart (year + 400 * era) = marchStart year + 146097 * era := by
  have fours : (year + 400 * era) / 4 = year / 4 + 100 * era := by omega
  have hundreds : (year + 400 * era) / 100 = year / 100 + 4 * era := by omega
  have eras : (year + 400 * era) / 400 = year / 400 + era := by omega
  have few : year / 100 ≤ year := Nat.div_le_self _ _
  rw [marchStart, marchStart, fours, hundreds, eras]
  generalize year / 400 = e
  generalize year / 100 = c at few
  generalize year / 4 = q
  omega

theorem marchLength_add (year era : ℕ) : marchLength (year + 400 * era) = marchLength year := by
  have repeats : ∀ d, d ∣ 400 → (d ∣ year + 400 * era + 1 ↔ d ∣ year + 1) := by
    intro d divides
    rw [Nat.add_right_comm, Nat.dvd_add_left (divides.mul_right era)]
  have same : IsLeap (year + 400 * era + 1) ↔ IsLeap (year + 1) := by
    simp only [IsLeap, repeats 4 (by decide), repeats 100 (by decide), repeats 400 (by decide)]
  simp only [marchLength, same]

theorem marchLength_le (year : ℕ) : marchLength year ≤ 366 := by
  unfold marchLength
  split <;> omega

theorem le_marchLength (year : ℕ) : 365 ≤ marchLength year := by
  unfold marchLength
  split <;> omega

/-- The month of a day is the one that has begun last. -/
theorem month_eq_iff {doy mp : ℕ} :
    (5 * doy + 2) / 153 = mp ↔ monthStart mp ≤ doy ∧ doy < monthStart (mp + 1) := by
  unfold monthStart
  omega

/-- A month ends where the next one begins, and the last one with the year. -/
theorem daysIn_marchMonth {year mp : ℕ} (h : mp < 12) :
    daysIn (if marchMonth mp ≤ 2 then year + 1 else year) (marchMonth mp) =
      min (monthStart (mp + 1)) (marchLength year) - monthStart mp := by
  have long := le_marchLength year
  rcases Nat.lt_or_eq_of_le (Nat.le_of_lt_succ h) with early | rfl
  · have inside : monthStart (mp + 1) ≤ marchLength year := by
      unfold monthStart
      omega
    rw [Nat.min_eq_left inside]
    interval_cases mp
    all_goals rfl
  · by_cases leap : IsLeap (year + 1)
    · simp [daysIn, marchMonth, monthStart, marchLength, leap]
    · simp [daysIn, marchMonth, monthStart, marchLength, leap]

/-- The months of a year are no longer than it. -/
theorem month_lt {year doy : ℕ} (h : doy < marchLength year) : (5 * doy + 2) / 153 < 12 := by
  have := marchLength_le year
  omega

/-- From a day to the next, in the same month or not. -/
theorem next_marchDate {year doy : ℕ} (h : doy + 1 < marchLength year) :
    (marchDate year doy).next = marchDate year (doy + 1) := by
  obtain ⟨mp, hmp⟩ : ∃ mp, (5 * doy + 2) / 153 = mp := ⟨_, rfl⟩
  have few : mp < 12 := hmp ▸ month_lt (Nat.lt_of_succ_lt h)
  obtain ⟨begun, unended⟩ := month_eq_iff.mp hmp
  have days := @daysIn_marchMonth year mp few
  unfold Date.next
  simp only [marchDate, hmp, days]
  by_cases last : doy + 1 = monthStart (mp + 1)
  · have turned : (5 * (doy + 1) + 2) / 153 = mp + 1 := by
      refine month_eq_iff.mpr ⟨last.ge, ?_⟩
      rw [last]
      unfold monthStart
      omega
    have more : mp + 1 < 12 := turned ▸ month_lt h
    rw [if_neg (by omega), turned, ← last, Nat.sub_self]
    rcases Nat.lt_trichotomy mp 9 with early | december | late
    · have month : marchMonth mp = mp + 3 := if_pos (by omega)
      have month' : marchMonth (mp + 1) = mp + 4 := if_pos (by omega)
      rw [month, month', if_pos (by omega), if_neg (by omega), if_neg (by omega)]
    · simp [marchMonth, december]
    · have january : mp = 10 := by omega
      simp [marchMonth, january]
  · have same : (5 * (doy + 1) + 2) / 153 = mp := month_eq_iff.mpr ⟨by omega, by omega⟩
    rw [if_pos (by omega), same]
    simp only [Date.mk.injEq, true_and]
    omega

/-- From the last day of a year to the next. -/
theorem next_marchDate_last {year doy : ℕ} (h : doy + 1 = marchLength year) :
    (marchDate year doy).next = marchDate (year + 1) 0 := by
  have long := le_marchLength year
  have few := marchLength_le year
  have hmp : (5 * doy + 2) / 153 = 11 := by omega
  have days := @daysIn_marchMonth year 11 (by omega)
  unfold Date.next
  simp only [marchDate, hmp, days]
  rw [if_neg (by simp only [monthStart]; omega)]
  simp [marchMonth, monthStart]

/-- Where the days since the first of March of the year zero lie. -/
theorem after_marchDate {d : Date} {year doy : ℕ} (hd : d = marchDate year doy)
    (h : doy < marchLength year) (n : ℕ) :
    ∃ year' doy', doy' < marchLength year' ∧
      marchStart year' + doy' = marchStart year + doy + n ∧ d.after n = marchDate year' doy' := by
  induction n with
  | zero => exact ⟨year, doy, h, rfl, hd⟩
  | succ n ih =>
    obtain ⟨year', doy', within, count, date⟩ := ih
    rw [Date.after, date]
    by_cases last : doy' + 1 = marchLength year'
    · refine ⟨year' + 1, 0, ?_, ?_, next_marchDate_last last⟩
      · have := le_marchLength (year' + 1)
        omega
      · rw [marchStart_succ]
        omega
    · have inside : doy' + 1 < marchLength year' := by omega
      exact ⟨year', doy' + 1, inside, by omega, next_marchDate inside⟩

end Calendar

end VmWatcher

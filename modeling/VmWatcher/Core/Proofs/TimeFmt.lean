import VmWatcher.Core.TimeFmt
import VmWatcher.Misc.Calendar

/-!
# Timestamps follow the calendar

The years of an era of 400 years are found by one division, once the leap days are taken out of
its days: one for every 1460 of them, less one for every full century but the last.
-/

namespace VmWatcher

open Calendar

/-! ### Dates -/

section Era

-- A day of an era: full centuries, full periods of four years, full years, and days. Only the
-- last year of a period has a 366th day, but for the last period of the first three centuries.
variable {c s t k : ℕ} (hc : c < 4) (hs : s < 25) (ht : t < 4)
variable (hk : k < 365 ∨ k = 365 ∧ t = 3 ∧ (s < 24 ∨ c = 3))
include hc hs ht hk

/-- The last day of the era is the only one past four centuries of 36524 days. -/
theorem centuries_of_day : 36524 * c + 1461 * s + 365 * t + k < 36524 * (c + 1) ∨
    36524 * c + 1461 * s + 365 * t + k = 146096 ∧ c = 3 := by
  rcases hk with short | ⟨long, last, own⟩
  · omega
  · omega

/-- The leap days in the days past the full periods. -/
theorem leaps_of_day : (24 * c + s + 365 * t + k) / 1460 ≤ k ∧
    k < (24 * c + s + 365 * t + k) / 1460 + 365 := by
  by_cases few : 24 * c + s + 365 * t + k < 1460
  · rw [Nat.div_eq_of_lt few]
    omega
  · have one : (24 * c + s + 365 * t + k) / 1460 = 1 :=
      Nat.div_eq_of_lt_le (by omega) (by omega)
    rw [one]
    omega

/-- The years of an era that are over. -/
theorem yearOfEra_eq {doe : ℕ} (day : 36524 * c + 1461 * s + 365 * t + k = doe) :
    (doe - doe / 1460 + doe / 36524 - doe / 146096) / 365 = 100 * c + 4 * s + t := by
  have century : doe / 36524 = c + doe / 146096 := by
    rcases centuries_of_day hc hs ht hk with unended | ⟨last, three⟩
    · rw [day] at unended
      have inside : doe / 36524 = c := Nat.div_eq_of_lt_le (by omega) (by omega)
      rw [inside, Nat.div_eq_of_lt (by omega), Nat.add_zero]
    · rw [← day, last, three]
  obtain ⟨paid, inside⟩ := leaps_of_day hc hs ht hk
  have periods : doe / 1460 = (24 * c + s + 365 * t + k) / 1460 + (25 * c + s) := by
    have split : doe = 24 * c + s + 365 * t + k + (25 * c + s) * 1460 := by omega
    rw [split, Nat.add_mul_div_right _ _ (by omega)]
  rw [century, periods]
  generalize (24 * c + s + 365 * t + k) / 1460 = leaps at paid inside
  clear century periods hk
  have years : doe - (leaps + (25 * c + s)) + (c + doe / 146096) - doe / 146096 =
      365 * (100 * c + 4 * s + t) + (k - leaps) := by
    generalize doe / 146096 = last
    omega
  rw [years, Nat.mul_add_div (by omega), Nat.div_eq_of_lt (by omega), Nat.add_zero]

end Era

/-- The days before a year of an era. -/
theorem marchStart_year {c s t : ℕ} (hc : c < 4) (hs : s < 25) (ht : t < 4) :
    marchStart (100 * c + 4 * s + t) = 36524 * c + 1461 * s + 365 * t := by
  have fours : (100 * c + 4 * s + t) / 4 = 25 * c + s := by omega
  have hundreds : (100 * c + 4 * s + t) / 100 = c := by omega
  have eras : (100 * c + 4 * s + t) / 400 = 0 := by omega
  rw [marchStart, fours, hundreds, eras]
  omega

/-- The days of a year of an era. -/
theorem lt_marchLength {c s t k : ℕ} (hc : c < 4) (hs : s < 25) (ht : t < 4)
    (h : k < marchLength (100 * c + 4 * s + t)) :
    k < 365 ∨ k = 365 ∧ t = 3 ∧ (s < 24 ∨ c = 3) := by
  by_cases leap : IsLeap (100 * c + 4 * s + t + 1)
  · rw [marchLength, if_pos leap] at h
    unfold IsLeap at leap
    omega
  · rw [marchLength, if_neg leap] at h
    exact .inl h

theorem civilFromDays_of_place {n year doy : ℕ} (h : doy < marchLength year)
    (count : marchStart year + doy = 719468 + n) :
    civilFromDays n =
      (((marchDate year doy).year : ℤ), (marchDate year doy).month, (marchDate year doy).day) := by
  obtain ⟨y, e, hy, rfl⟩ : ∃ y e, y < 400 ∧ year = y + 400 * e :=
    ⟨year % 400, year / 400, Nat.mod_lt _ (by omega), (Nat.mod_add_div year 400).symm⟩
  obtain ⟨c, s, t, hc, hs, ht, rfl⟩ : ∃ c s t, c < 4 ∧ s < 25 ∧ t < 4 ∧ y = 100 * c + 4 * s + t :=
    ⟨y / 100, y % 100 / 4, y % 4, by omega, by omega, by omega, by omega⟩
  rw [marchStart_add, marchStart_year hc hs ht] at count
  rw [marchLength_add] at h
  have hk := lt_marchLength hc hs ht h
  have era : (if (n : ℤ) + 719468 ≥ 0 then (n : ℤ) + 719468 else (n : ℤ) + 719468 - 146096).tdiv
      146097 = e := by
    rw [if_pos (by omega), Int.tdiv_eq_ediv_of_nonneg (by omega)]
    omega
  have doe : ((n : ℤ) + 719468 - e * 146097).toNat = 36524 * c + 1461 * s + 365 * t + doy := by
    omega
  have own : 36524 * c + 1461 * s + 365 * t + doy - (365 * (100 * c + 4 * s + t) +
      (100 * c + 4 * s + t) / 4 - (100 * c + 4 * s + t) / 100) = doy := by
    have start := marchStart_year hc hs ht
    rw [marchStart, Nat.div_eq_of_lt hy, Nat.add_zero] at start
    rw [start, Nat.add_sub_cancel_left]
  have month : ∀ mp, (if mp < 10 then mp + 3 else mp - 9) = marchMonth mp := fun _ => rfl
  simp only [civilFromDays, era, doe, yearOfEra_eq hc hs ht hk rfl, own, month, marchDate,
    monthStart, Prod.mk.injEq, and_true]
  by_cases turned : marchMonth ((5 * doy + 2) / 153) ≤ 2
  · rw [if_pos turned, if_pos turned]
    push_cast
    omega
  · rw [if_neg turned, if_neg turned]
    push_cast
    omega

/-- The first day of the timestamps. -/
def unixEpoch : Date := ⟨1970, 1, 1⟩

theorem unixEpoch_valid : unixEpoch.Valid := ⟨by decide, by decide, by decide, by decide⟩

/-- `civil_from_days` counts the days of the calendar. -/
theorem civilFromDays_eq (n : ℕ) : civilFromDays n =
    (((unixEpoch.after n).year : ℤ), (unixEpoch.after n).month, (unixEpoch.after n).day) := by
  have first : unixEpoch = marchDate 1969 306 := by decide
  have within : 306 < marchLength 1969 := by decide
  have start : marchStart 1969 + 306 = 719468 := by decide
  obtain ⟨year, doy, h, count, date⟩ := after_marchDate first within n
  rw [start] at count
  rw [date]
  exact civilFromDays_of_place h count

/-! ### Texts -/

theorem length_zeroPadded {width n : ℕ} (hw : 0 < width) (h : n < 10 ^ width) :
    (zeroPadded width n).length = width := by
  have fits := (Nat.length_toDigits_le_iff (by decide) hw).mpr h
  rw [zeroPadded, List.length_append, List.length_replicate]
  omega

/-- A number is read back from its digits, leading zeros or not. -/
theorem zeroPadded_injective (width : ℕ) : Function.Injective (zeroPadded width) := by
  have read : ∀ n, Nat.ofDigitChars 10 (zeroPadded width n) 0 = n := by
    intro n
    rw [zeroPadded, Nat.ofDigitChars_append, Nat.ofDigitChars_replicate_zero, Nat.mul_zero,
      Nat.ofDigitChars_ten_toDigits]
  exact Function.LeftInverse.injective read

/-- The text of a date and a time of the day. -/
def timestamp (d : Date) (secs : ℕ) : List Char :=
  zeroPadded 4 d.year ++ '-' :: zeroPadded 2 d.month ++ '-' :: zeroPadded 2 d.day ++
    ' ' :: zeroPadded 2 (secs / 3600) ++ ':' :: zeroPadded 2 (secs % 3600 / 60) ++
    ':' :: zeroPadded 2 (secs % 60) ++ " UTC".toList

/-- The date of a second. -/
def dateAt (unixSecs : ℕ) : Date := unixEpoch.after (unixSecs / 86400)

theorem formatUnixUtc_eq (unixSecs : ℕ) : formatUnixUtc unixSecs =
    String.ofList (timestamp (dateAt unixSecs) (unixSecs % 86400)) := by
  have year : ∀ n : ℕ, zeroPaddedInt 4 n = zeroPadded 4 n := by
    intro n
    rw [zeroPaddedInt, if_neg (by omega), Int.natAbs_natCast]
  simp only [formatUnixUtc, civilFromDays_eq, year, timestamp, dateAt]

theorem cons_inj_of_length {c : Char} {xs ys xs' ys' : List Char}
    (h : xs ++ c :: ys = xs' ++ c :: ys') (same : ys.length = ys'.length) : xs = xs' ∧ ys = ys' := by
  obtain ⟨front, back⟩ := List.append_inj' h (by simp [same])
  exact ⟨front, (List.cons.inj back).2⟩

theorem timestamp_inj {d d' : Date} {secs secs' : ℕ} (hd : d.Valid) (hd' : d'.Valid)
    (hs : secs < 86400) (hs' : secs' < 86400) (h : timestamp d secs = timestamp d' secs') :
    d = d' ∧ secs = secs' := by
  have two : ∀ {n n' : ℕ}, n < 100 → n' < 100 →
      (zeroPadded 2 n).length = (zeroPadded 2 n').length := fun h h' =>
    (length_zeroPadded Nat.two_pos h).trans (length_zeroPadded Nat.two_pos h').symm
  have days := daysIn_le d.year d.month
  have days' := daysIn_le d'.year d'.month
  have := hd.month_le
  have := hd'.month_le
  have := hd.day_le
  have := hd'.day_le
  unfold timestamp at h
  obtain ⟨h, second⟩ := cons_inj_of_length (List.append_cancel_right h) (two (by omega) (by omega))
  obtain ⟨h, minute⟩ := cons_inj_of_length h (two (by omega) (by omega))
  obtain ⟨h, hour⟩ := cons_inj_of_length h (two (by omega) (by omega))
  obtain ⟨h, day⟩ := cons_inj_of_length h (two (by omega) (by omega))
  obtain ⟨year, month⟩ := cons_inj_of_length h (two (by omega) (by omega))
  have second := zeroPadded_injective 2 second
  have minute := zeroPadded_injective 2 minute
  have hour := zeroPadded_injective 2 hour
  constructor
  · cases d
    cases d'
    simp only [Date.mk.injEq]
    exact ⟨zeroPadded_injective 4 year, zeroPadded_injective 2 month, zeroPadded_injective 2 day⟩
  · omega

/-- A timestamp shows the date the calendar has so many days after the first of January 1970 and
the time of that day, and no two seconds have the same timestamp. -/
theorem timestamps_follow_calendar (unixSecs : ℕ) :
    (dateAt unixSecs).Valid ∧
      civilFromDays (unixSecs / 86400 : ℕ) =
        (((dateAt unixSecs).year : ℤ), (dateAt unixSecs).month, (dateAt unixSecs).day) ∧
      formatUnixUtc unixSecs = String.ofList (timestamp (dateAt unixSecs) (unixSecs % 86400)) ∧
      ∀ other, formatUnixUtc other = formatUnixUtc unixSecs → other = unixSecs := by
  have valid := unixEpoch_valid.after
  refine ⟨valid _, civilFromDays_eq _, formatUnixUtc_eq _, ?_⟩
  intro other same
  rw [formatUnixUtc_eq, formatUnixUtc_eq] at same
  obtain ⟨dates, times⟩ := timestamp_inj (valid _) (valid _) (Nat.mod_lt _ (by decide))
    (Nat.mod_lt _ (by decide)) (String.ofList_injective same)
  have days := unixEpoch_valid.after_injective dates
  omega

end VmWatcher

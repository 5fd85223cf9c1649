import Mathlib.Data.Int.Notation
import Mathlib.Data.Nat.Notation

/-!
# Timestamps (`vm-bandwidth-core/src/timefmt.rs`)
-/

namespace VmWatcher

/-- `civil_from_days`: days since 1970-01-01 to year, month and day. -/
def civilFromDays (z : ℤ) : ℤ × ℕ × ℕ :=
  let z := z + 719468
  let era := (if z ≥ 0 then z else z - 146096).tdiv 146097
  let doe := (z - era * 146097).toNat
  let yoe := (doe - doe / 1460 + doe / 36524 - doe / 146096) / 365
  let y := (yoe : ℤ) + era * 400
  let doy := doe - (365 * yoe + yoe / 4 - yoe / 100)
  let mp := (5 * doy + 2) / 153
  let d := doy - (153 * mp + 2) / 5 + 1
  let m := if mp < 10 then mp + 3 else mp - 9
  (if m ≤ 2 then y + 1 else y, m, d)

/-- `{n:0width}`. -/
def zeroPadded (width n : ℕ) : List Char :=
  let digits := Nat.toDigits 10 n
  List.replicate (width - digits.length) '0' ++ digits

/-- `{n:0width}` of a signed number: the sign counts towards the width. -/
def zeroPaddedInt (width : ℕ) (n : ℤ) : List Char :=
  if n < 0 then '-' :: zeroPadded (width - 1) n.natAbs else zeroPadded width n.natAbs

/-- `format_unix_utc`: `YYYY-MM-DD HH:MM:SS UTC`. -/
def formatUnixUtc (unixSecs : ℕ) : String :=
  let days := unixSecs / 86400
  let secsOfDay := unixSecs % 86400
  let (h, m, s) := (secsOfDay / 3600, secsOfDay % 3600 / 60, secsOfDay % 60)
  let (year, month, day) := civilFromDays days
  String.ofList (zeroPaddedInt 4 year ++ '-' :: zeroPadded 2 month ++ '-' :: zeroPadded 2 day ++
    ' ' :: zeroPadded 2 h ++ ':' :: zeroPadded 2 m ++ ':' :: zeroPadded 2 s ++ " UTC".toList)

end VmWatcher

import VmWatcher.Common
import VmWatcher.Core.Text

/-!
# Config units (`vm-bandwidth-core/src/units.rs`)

Whole numbers with a unit suffix. Every parser names the offending value in its error.
-/

namespace VmWatcher

/-- `nonzero`: turn an optional product into a required, non-zero value. -/
def nonzero (value : Option ℕ) (raw what : String) : Except String ℕ :=
  match value with
  | none => .error s!"{what} {debugStr raw}: overflow"
  | some value =>
    if value = 0 then .error s!"{what} {debugStr raw}: must be > 0" else .ok value

/-- `u64::checked_mul`. -/
def u64CheckedMul (x y : ℕ) : Option ℕ := if x * y ≤ u64Max then some (x * y) else none

/-- `split_unit`: a whole-number part and a lower-cased unit suffix. -/
def splitUnit (raw what : String) : Except String (ℕ × String) :=
  let trimmed := trim raw.toList
  if trimmed.isEmpty then
    .error s!"{what} {debugStr raw}: empty value"
  else if (trimmed.takeWhile isAsciiDigit).isEmpty then
    .error s!"{what} {debugStr raw}: missing numeric value"
  else
    match parseUnsigned u64Max (trimmed.takeWhile isAsciiDigit) with
    | none => .error s!"{what} {debugStr raw}: not a whole number"
    | some num =>
      let unit := (trim (trimmed.dropWhile isAsciiDigit)).map toAsciiLowercase
      if unit.isEmpty then .error s!"{what} {debugStr raw}: missing unit"
      else .ok (num, String.ofList unit)

def rateUnit : String → Option ℕ
  | "bps" | "bit/s" => some 1
  | "kbps" | "kbit/s" => some 1000
  | "mbps" | "mbit/s" => some 1000000
  | "gbps" | "gbit/s" => some 1000000000
  | _ => none

/-- `parse_rate_bps`: the `b` of the `…bps` forms must be lower-case. -/
def parseRateBps (raw : String) : Except String ℕ := do
  let (num, unit) ← splitUnit raw "bit rate"
  if unit.toList.reverse.take 3 = "spb".toList ∧ (trimEnd raw.toList).reverse[2]? = some 'B' then
    throw (s!"bit rate {debugStr raw}: an upper-case B means bytes, but rates are in bits " ++
      "(bps, Kbps, Mbps or Gbps; e.g. 100MB/s = 800Mbps)")
  match rateUnit unit with
  | none =>
    throw (s!"bit rate {debugStr raw}: unknown unit {debugStr unit} " ++
      "(expected bps, Kbps, Mbps or Gbps)")
  | some mult => nonzero (u64CheckedMul num mult) raw "bit rate"

def durationUnit : String → Option ℕ
  | "s" | "sec" | "secs" => some 1
  | "m" | "min" | "mins" => some 60
  | "h" | "hr" | "hour" | "hours" => some 3600
  | _ => none

/-- A value whose unit is looked up in a table, in seconds or in bytes. -/
def parseUnit (what : String) (lookup : String → Option ℕ) (expected raw : String) :
    Except String ℕ := do
  let (num, unit) ← splitUnit raw what
  match lookup unit with
  | none => throw s!"{what} {debugStr raw}: unknown unit {debugStr unit} (expected {expected})"
  | some mult => nonzero (u64CheckedMul num mult) raw what

/-- `parse_duration_secs`. -/
def parseDurationSecs (raw : String) : Except String ℕ :=
  parseUnit "duration" durationUnit "s, m or h" raw

def byteUnit : String → Option ℕ
  | "b" => some 1
  | "kb" => some 1000
  | "mb" => some 1000000
  | "gb" => some 1000000000
  | "kib" => some 1024
  | "mib" => some (1024 * 1024)
  | "gib" => some (1024 * 1024 * 1024)
  | _ => none

/-- `parse_bytes`. -/
def parseBytes (raw : String) : Except String ℕ :=
  parseUnit "byte size" byteUnit "B, KB, MB, GB, KiB, MiB or GiB" raw

/-- `parse_percent`: an integer in `1..=100` with a percent sign. -/
def parsePercent (raw : String) : Except String UInt8 := do
  let trimmed := trim raw.toList
  if trimmed.getLast? ≠ some '%' then
    throw s!"percentage {debugStr raw}: must end with '%'"
  match parseUnsigned 255 (trim trimmed.dropLast) with
  | none => throw s!"percentage {debugStr raw}: not a whole number"
  | some value =>
    if 1 ≤ value ∧ value ≤ 100 then
      return UInt8.ofNat value
    throw s!"percentage {debugStr raw}: must be between 1% and 100%"

end VmWatcher

import Mathlib.Data.List.Basic

/-!
# Text

The operations of Rust's `str` and the `parse` of its integers and IPv4 addresses, on
the characters of a string.
-/

namespace VmWatcher

/-- `char::is_whitespace`: the Unicode property `White_Space`. -/
def isWhitespace (c : Char) : Bool :=
  (9 ≤ c.toNat && c.toNat ≤ 13) || (0x2000 ≤ c.toNat && c.toNat ≤ 0x200A) ||
    [0x20, 0x85, 0xA0, 0x1680, 0x2028, 0x2029, 0x202F, 0x205F, 0x3000].contains c.toNat

/-- `char::is_ascii_digit`. -/
def isAsciiDigit (c : Char) : Bool := 48 ≤ c.toNat && c.toNat ≤ 57

/-- `char::to_ascii_lowercase`. -/
def toAsciiLowercase (c : Char) : Char :=
  if 65 ≤ c.toNat && c.toNat ≤ 90 then Char.ofNat (c.toNat + 32) else c

/-- `str::trim_end_matches`, of the characters that pass the test. -/
def trimEndMatches (drop : Char → Bool) (s : List Char) : List Char :=
  (s.reverse.dropWhile drop).reverse

/-- `str::trim_end`. -/
def trimEnd (s : List Char) : List Char := trimEndMatches isWhitespace s

/-- `str::trim`. -/
def trim (s : List Char) : List Char := trimEnd (s.dropWhile isWhitespace)

/-- `str::split_once`, at the first occurrence of the character. -/
def splitOnce (sep : Char) (s : List Char) : Option (List Char × List Char) :=
  if s.contains sep then
    some (s.takeWhile (· ≠ sep), (s.dropWhile (· ≠ sep)).tail)
  else none

/-- The characters `{:?}` prints for one character of a string. Characters past ASCII
print as themselves. -/
def escapeDebug (c : Char) : List Char :=
  match c.toNat with
  | 0 => "\\0".toList
  | 9 => "\\t".toList
  | 10 => "\\n".toList
  | 13 => "\\r".toList
  | 34 => "\\\"".toList
  | 92 => "\\\\".toList
  | code =>
    if code < 32 || code = 127 then
      "\\u\x7b".toList ++ Nat.toDigits 16 code ++ "\x7d".toList
    else [c]

/-- `{:?}` of a string. -/
def debugStr (s : String) : String :=
  String.ofList ("\"".toList ++ s.toList.flatMap escapeDebug ++ "\"".toList)

/-- The value of a run of decimal digits. -/
def decimal (digits : List Char) : ℕ :=
  digits.foldl (fun value c => value * 10 + (c.toNat - 48)) 0

/-- `parse` of an unsigned integer type with the given largest value: digits, after an
optional plus sign. -/
def parseUnsigned (largest : ℕ) (s : List Char) : Option ℕ :=
  let digits := if s.head? = some '+' then s.tail else s
  if digits ≠ [] ∧ digits.all isAsciiDigit ∧ decimal digits ≤ largest then some (decimal digits)
  else none

/-- One group of an IPv4 address: up to three digits, none of them a leading zero. -/
def parseOctet (s : List Char) : Option ℕ :=
  if s ≠ [] ∧ s.length ≤ 3 ∧ s.all isAsciiDigit ∧ (s.head? = some '0' → s.length = 1) ∧
      decimal s ≤ 255 then
    some (decimal s)
  else none

/-- `parse::<Ipv4Addr>`: exactly four groups. -/
def parseIpv4 (s : List Char) : Option UInt32 := do
  let (a, rest) ← splitOnce '.' s
  let (b, rest) ← splitOnce '.' rest
  let (c, d) ← splitOnce '.' rest
  let a ← parseOctet a
  let b ← parseOctet b
  let c ← parseOctet c
  let d ← parseOctet d
  return UInt32.ofNat (a * 16777216 + b * 65536 + c * 256 + d)

example : parseIpv4 "10.30.8.16".toList = some 169740304 := by decide

end VmWatcher

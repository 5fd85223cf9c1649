import VmWatcher.Core.ConfigFile
import VmWatcher.Core.Text
import VmWatcher.Misc.TracedArith
import Mathlib.Data.List.Sort

/-!
# Address ranges (`vm-bandwidth-core/src/ip_range.rs`)
-/

namespace VmWatcher

/-- How `std::net::Ipv4Addr` prints an address. -/
def ipv4Display (ip : UInt32) : String :=
  s!"{ip / 16777216}.{ip / 65536 % 256}.{ip / 256 % 256}.{ip % 256}"

/-- One CIDR prefix: `network` with its top `prefixLen` bits fixed. -/
structure Cidr where
  prefixLen : UInt8
  network : UInt32
  deriving DecidableEq, Repr

namespace Cidr

def display (cidr : Cidr) : String := s!"{ipv4Display cidr.network}/{cidr.prefixLen}"

/-- Inclusive address span covered by this prefix. -/
def span (cidr : Cidr) : UInt32 × UInt32 :=
  let size := 2 ^ (32 - cidr.prefixLen.toNat)
  let start := cidr.network.toNat
  (UInt32.ofNat start, UInt32.ofNat (start + size - 1))

/-- `span` with its machine operations on record. -/
def tracedSpan (cidr : Cidr) : Traced (UInt32 × UInt32) := do
  let size ← (if cidr.prefixLen = 0 then
      Traced.shl 1 32
    else do
      let bits ← Traced.sub 32 cidr.prefixLen.toNat
      Traced.shl 1 (← Traced.narrow 8 bits)
    : Traced ℕ)
  let start := cidr.network.toNat
  let first ← Traced.narrow 32 start
  let past ← Traced.add start size
  let last ← Traced.narrow 32 (← Traced.sub past 1)
  return (UInt32.ofNat first, UInt32.ofNat last)

/-- The address lies in the block of the prefix. -/
def Covers (c : Cidr) (ipv4 : UInt32) : Prop :=
  ipv4.toNat / 2 ^ (32 - c.prefixLen.toNat) = c.network.toNat / 2 ^ (32 - c.prefixLen.toNat)

end Cidr

/-- One configured, validated IP range, from `start` through `stop` (`end` in the
source, a keyword here). -/
structure IpRange where
  name : String
  start : UInt32
  stop : UInt32
  deriving DecidableEq, Repr

namespace IpRange

def contains (range : IpRange) (ip : UInt32) : Bool := range.start ≤ ip && ip ≤ range.stop

/-- The inner loop of `cidrs`: the largest block that starts aligned at `cur` and
stays inside the range, in bits. -/
def blockBits (cur stop alignBits : ℕ) : ℕ → ℕ → ℕ
  | 0, bits => bits
  | fuel + 1, bits =>
      if bits < alignBits ∧ bits < 32 ∧ cur + 2 ^ (bits + 1) - 1 ≤ stop then
        blockBits cur stop alignBits fuel (bits + 1)
      else bits

/-- `u64::trailing_zeros`, for the first `fuel` bits. -/
def trailingZeros : ℕ → ℕ → ℕ
  | 0, _ => 0
  | fuel + 1, n => if n % 2 = 0 then trailingZeros fuel (n / 2) + 1 else 0

/-- The outer loop of `cidrs`. Every round moves the cursor on, so the addresses that
are left bound the rounds. -/
def cidrsFrom (stop : ℕ) : ℕ → ℕ → List Cidr
  | 0, _ => []
  | fuel + 1, cur =>
      if cur ≤ stop then
        let alignBits := if cur = 0 then 32 else trailingZeros 64 cur
        let bits := blockBits cur stop alignBits 32 0
        ⟨UInt8.ofNat (32 - bits), UInt32.ofNat cur⟩ :: cidrsFrom stop fuel (cur + 2 ^ bits)
      else []

/-- Minimal set of CIDR prefixes whose union is exactly `start..=end`. -/
def cidrs (range : IpRange) : List Cidr :=
  cidrsFrom range.stop.toNat (range.stop.toNat + 1 - range.start.toNat) range.start.toNat

/-- The inner loop of `cidrs` with its machine operations on record. -/
def tracedBlockBits (cur stop alignBits : ℕ) : ℕ → ℕ → Traced ℕ
  | 0, bits => pure bits
  | fuel + 1, bits =>
      if bits < alignBits ∧ bits < 32 then do
        let next ← Traced.narrow 32 (← Traced.add bits 1)
        let size ← Traced.shl 1 next
        let past ← Traced.add cur size
        let last ← Traced.sub past 1
        if last > stop then
          return bits
        tracedBlockBits cur stop alignBits fuel next
      else
        return bits

/-- The outer loop of `cidrs` with its machine operations on record. -/
def tracedCidrsFrom (stop : ℕ) : ℕ → ℕ → Traced (List Cidr)
  | 0, _ => pure []
  | fuel + 1, cur =>
      if cur ≤ stop then do
        let alignBits := if cur = 0 then 32 else trailingZeros 64 cur
        let bits ← tracedBlockBits cur stop alignBits 32 0
        let width ← Traced.narrow 32 (← Traced.sub 32 bits)
        let prefixLen ← Traced.narrow 8 width
        let network ← Traced.narrow 32 cur
        let size ← Traced.shl 1 bits
        let next ← Traced.add cur size
        let rest ← tracedCidrsFrom stop fuel next
        return ⟨UInt8.ofNat prefixLen, UInt32.ofNat network⟩ :: rest
      else
        return []

/-- `cidrs` with its machine operations on record. -/
def tracedCidrs (range : IpRange) : Traced (List Cidr) :=
  tracedCidrsFrom range.stop.toNat (range.stop.toNat + 1 - range.start.toNat) range.start.toNat

/-- `10.30.8.1-10.30.8.16` -/
def display (range : IpRange) : String := s!"{ipv4Display range.start}-{ipv4Display range.stop}"

end IpRange

/-- `IPV6_RANGE_NAME`: the aggregate IPv6 pseudo-range. -/
def ipv6RangeName : String := "IPv6"

/-- `parse_ip`. -/
def parseIp (what : String) (raw : List Char) : Except String UInt32 :=
  match parseIpv4 (trim raw) with
  | some ip => .ok ip
  | none => .error s!"range {debugStr (String.ofList raw)}: {what} is not a valid IPv4 address"

/-- `parse_range`: `start-end`. -/
def parseRange (raw : String) : Except String (UInt32 × UInt32) := do
  match splitOnce '-' raw.toList with
  | none =>
    throw s!"range {debugStr raw}: must use the START-END format, e.g. 10.30.8.1-10.30.8.16"
  | some (startStr, endStr) =>
    if endStr.contains '-' then
      throw s!"range {debugStr raw}: more than one '-'"
    let start ← (parseIp "start address" startStr).mapError fun _ =>
      s!"range {debugStr raw}: {debugStr (String.ofList startStr)} is not a valid IPv4 address"
    let stop ← (parseIp "end address" endStr).mapError fun _ =>
      s!"range {debugStr raw}: {debugStr (String.ofList endStr)} is not a valid IPv4 address"
    if start > stop then
      throw (s!"range {debugStr raw}: start is greater than end " ++
        "(reversed ranges are not supported)")
    return (start, stop)

/-- The loop of `validate_ranges`; `names` are the names seen so far. -/
def validateEntries : List IpRangeEntry → List String → List IpRange →
    Except String (List IpRange)
  | [], _, ranges => pure ranges
  | entry :: rest, names, ranges => do
      if (trim entry.name.toList).isEmpty then
        throw s!"ip range {debugStr entry.range}: name must not be empty"
      if entry.name = ipv6RangeName then
        throw (s!"ip range name {debugStr ipv6RangeName} is reserved for the aggregate IPv6 " ++
          "counters; choose another name")
      if entry.name ∈ names then
        throw s!"ip range name {debugStr entry.name} is used more than once"
      let (start, stop) ← parseRange entry.range
      validateEntries rest (entry.name :: names) (ranges ++ [⟨entry.name, start, stop⟩])

/-- The overlap check of `validate_ranges`, on the ranges sorted by start. -/
def checkOverlap : List IpRange → Except String Unit
  | a :: b :: rest => do
      if b.start ≤ a.stop then
        throw s!"IP range overlap:\n{a.name}: {a.display}\n{b.name}: {b.display}"
      checkOverlap (b :: rest)
  | _ => pure ()

/-- `validate_ranges`: the ranges of all entries, in their order. -/
def validateRanges (entries : List IpRangeEntry) : Except String (List IpRange) := do
  if entries.isEmpty then
    throw "config must contain at least one [[ip_ranges]] entry"
  let ranges ← validateEntries entries [] []
  checkOverlap (ranges.insertionSort fun a b => a.start ≤ b.start)
  return ranges

end VmWatcher

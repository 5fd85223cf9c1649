import VmWatcher.Core.Config
import VmWatcher.Daemon.Collector

/-!
# The snapshot of a poll (`vm-bandwidth/src/collector.rs`)

The last part of `apply_poll`: the counters of the addresses, added up for each configured
range. Rates are left out. The totals are a hash map, whose addresses come in the order
its iterator yields them.
-/

namespace VmWatcher

/-- `IDLE_ENUM_CAP`: larger ranges are never enumerated. -/
def idleEnumCap : ℕ := 4096

namespace IpRange

/-- `len`. -/
def len (range : IpRange) : ℕ := range.stop.toNat - range.start.toNat + 1

/-- `range.start..=range.end`. -/
def addresses (range : IpRange) : List UInt32 :=
  (List.range' range.start.toNat (range.stop.toNat + 1 - range.start.toNat)).map UInt32.ofNat

end IpRange

/-- `ip_ranges`: the addresses of the ranges, in the order of the file. -/
def ValidatedConfig.ipRanges (cfg : ValidatedConfig) : List IpRange :=
  cfg.ranges.map ValidatedRange.inner

/-- What a snapshot says of a range. -/
structure RangeStats where
  name : String
  range : String
  rxBytes : ℕ := 0
  txBytes : ℕ := 0
  rxPackets : ℕ := 0
  txPackets : ℕ := 0
  rxDroppedBytes : ℕ := 0
  txDroppedBytes : ℕ := 0
  rxDroppedPackets : ℕ := 0
  txDroppedPackets : ℕ := 0
  /-- The addresses of the range that own counters, and idle ones where these are shown. -/
  ips : List (UInt32 × IpStats) := []
  deriving DecidableEq, Repr

namespace RangeStats

/-- A range no address was added to yet. -/
def ofRange (range : IpRange) : RangeStats := { name := range.name, range := range.display }

/-- Add an address with its counters. -/
def addIp (rs : RangeStats) (ip : UInt32) (stats : IpStats) : RangeStats :=
  { rs with
    rxBytes := u64Add rs.rxBytes stats.rxBytes
    txBytes := u64Add rs.txBytes stats.txBytes
    rxPackets := u64Add rs.rxPackets stats.rxPackets
    txPackets := u64Add rs.txPackets stats.txPackets
    rxDroppedBytes := u64Add rs.rxDroppedBytes stats.rxDroppedBytes
    txDroppedBytes := u64Add rs.txDroppedBytes stats.txDroppedBytes
    rxDroppedPackets := u64Add rs.rxDroppedPackets stats.rxDroppedPackets
    txDroppedPackets := u64Add rs.txDroppedPackets stats.txDroppedPackets
    ips := rs.ips ++ [(ip, stats)] }

/-- The row of an address that was never observed. -/
def addIdle (rs : RangeStats) (ip : UInt32) : RangeStats := { rs with ips := rs.ips ++ [(ip, {})] }

end RangeStats

/-- What the terminal interface is shown of a poll. -/
structure Snapshot where
  ranges : List RangeStats
  deriving DecidableEq, Repr

namespace Snapshot

/-- One address in the loop over the totals: the first range that contains it takes it. -/
def addObserved (ranges : List IpRange) (totals : Table UInt32 IpStats)
    (snapRanges : List RangeStats) (ip : UInt32) : List RangeStats :=
  match totals ip, ranges.findIdx? (·.contains ip) with
  | some stats, some idx => snapRanges.modify idx fun rs => rs.addIp ip stats
  | _, _ => snapRanges

/-- The rows `show_idle_ips` adds to a range. -/
def addIdleIps (totals : Table UInt32 IpStats) (rs : RangeStats) (range : IpRange) : RangeStats :=
  if range.len > idleEnumCap then rs
  else
    range.addresses.foldl (fun rs ip => if (totals ip).isSome then rs else rs.addIdle ip) rs

/-- The snapshot of the totals, whose addresses are visited in the given order. -/
def ofTotals (ranges : List IpRange) (showIdleIps : Bool) (totals : Table UInt32 IpStats)
    (ips : List UInt32) : Snapshot :=
  let snapRanges := ips.foldl (addObserved ranges totals) (ranges.map RangeStats.ofRange)
  ⟨if showIdleIps then snapRanges.zipWith (addIdleIps totals) ranges else snapRanges⟩

end Snapshot

end VmWatcher

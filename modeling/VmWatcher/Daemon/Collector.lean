import VmWatcher.Core.Limiter
import VmWatcher.Ebpf.Counters

/-!
# The collector (`vm-bandwidth/src/collector.rs`)

The collector turns the counters of the data path into cumulative per-address totals.
What a poll read of a map is the list of its entries in the order its iterator yields
them, each key once. Rates and the snapshot for the terminal interface are left out:
nothing reads them back.
-/

namespace VmWatcher

/-- `IDLE_EVICT_POLLS`. -/
def idleEvictPolls : ℕ := 300

/-- For how many polls each key has not changed. The counts are `u32`: they are bounded by
the number of polls since the key was first read. -/
structure IdleTracker (K : Type) where
  counts : Table K ℕ := Table.empty

/-- `IdleTracker::observe`: the keys that reached the idle threshold. Keys that are gone
stop being tracked. -/
def IdleTracker.observe {K : Type} [DecidableEq K] (t : IdleTracker K) (present : List K)
    (changed : K → Bool) : List K × IdleTracker K :=
  let idle (k : K) : ℕ := if changed k then 0 else (t.counts k).getD 0 + 1
  (present.filter fun k => idle k ≥ idleEvictPolls,
    ⟨fun k => if k ∈ present then some (idle k) else none⟩)

/-- The cumulative counters of one address. -/
structure IpStats where
  rxBytes : ℕ := 0
  txBytes : ℕ := 0
  rxPackets : ℕ := 0
  txPackets : ℕ := 0
  rxPassedBytes : ℕ := 0
  txPassedBytes : ℕ := 0
  rxPassedPackets : ℕ := 0
  txPassedPackets : ℕ := 0
  rxDroppedBytes : ℕ := 0
  txDroppedBytes : ℕ := 0
  rxDroppedPackets : ℕ := 0
  txDroppedPackets : ℕ := 0
  deriving DecidableEq, Repr

/-- The values one poll read. -/
structure PollInputs where
  cur : List (TrafficKey × TrafficValue)
  cur6 : List (UInt32 × TrafficValue)
  curPolicer : List (LimitKey × PolicerStats)
  /-- A map read failed, so keys may be missing although they still exist. -/
  incomplete : Bool

/-- Cumulative policer verdicts of one address. -/
structure PolicerIpTotals where
  rxPassedBytes : ℕ := 0
  txPassedBytes : ℕ := 0
  rxPassedPackets : ℕ := 0
  txPassedPackets : ℕ := 0
  rxDroppedBytes : ℕ := 0
  txDroppedBytes : ℕ := 0
  rxDroppedPackets : ℕ := 0
  txDroppedPackets : ℕ := 0
  deriving DecidableEq, Repr

/-- What a poll reports. -/
structure PollResult where
  totals : Table UInt32 IpTotals
  ipv6 : IpStats
  policer : Table UInt32 PolicerIpTotals
  staleTraffic : List TrafficKey
  staleTraffic6 : List UInt32

/-- What moved since the previous sample. -/
structure Delta where
  rxBytes : ℕ := 0
  txBytes : ℕ := 0
  rxPackets : ℕ := 0
  txPackets : ℕ := 0
  deriving DecidableEq, Repr

namespace Delta

/-- A counter that went backwards counts as zero. -/
def since (value prev : TrafficValue) : Delta where
  rxBytes := value.rxBytes - prev.rxBytes
  txBytes := value.txBytes - prev.txBytes
  rxPackets := value.rxPackets - prev.rxPackets
  txPackets := value.txPackets - prev.txPackets

/-- `add_assign`. -/
def add (d other : Delta) : Delta where
  rxBytes := u64Add d.rxBytes other.rxBytes
  txBytes := u64Add d.txBytes other.txBytes
  rxPackets := u64Add d.rxPackets other.rxPackets
  txPackets := u64Add d.txPackets other.txPackets

/-- `is_zero`. -/
def isZero (d : Delta) : Bool := d = {}

end Delta

namespace IpStats

/-- Add the traffic of one interval. -/
def addDelta (stats : IpStats) (d : Delta) : IpStats :=
  { stats with
    rxBytes := u64Add stats.rxBytes d.rxBytes
    txBytes := u64Add stats.txBytes d.txBytes
    rxPackets := u64Add stats.rxPackets d.rxPackets
    txPackets := u64Add stats.txPackets d.txPackets }

/-- Add the verdicts of one interval. -/
def addPolicer (stats : IpStats) (direction : UInt8) (d : PolicerStats) : IpStats :=
  if direction = dirTx then
    { stats with
      txPassedBytes := u64Add stats.txPassedBytes d.passedBytes
      txPassedPackets := u64Add stats.txPassedPackets d.passedPackets
      txDroppedBytes := u64Add stats.txDroppedBytes d.droppedBytes
      txDroppedPackets := u64Add stats.txDroppedPackets d.droppedPackets }
  else
    { stats with
      rxPassedBytes := u64Add stats.rxPassedBytes d.passedBytes
      rxPassedPackets := u64Add stats.rxPassedPackets d.passedPackets
      rxDroppedBytes := u64Add stats.rxDroppedBytes d.droppedBytes
      rxDroppedPackets := u64Add stats.rxDroppedPackets d.droppedPackets }

/-- The counters the limiter is given. -/
def ipTotals (stats : IpStats) : IpTotals :=
  ⟨stats.rxBytes, stats.txBytes, stats.rxPackets, stats.txPackets⟩

/-- The verdicts for the metrics push, of an address that had any. -/
def policerTotals (stats : IpStats) : Option PolicerIpTotals :=
  if stats.rxPassedBytes = 0 ∧ stats.txPassedBytes = 0 ∧ stats.rxDroppedBytes = 0 ∧
      stats.txDroppedBytes = 0 then none
  else some ⟨stats.rxPassedBytes, stats.txPassedBytes, stats.rxPassedPackets,
    stats.txPassedPackets, stats.rxDroppedBytes, stats.txDroppedBytes, stats.rxDroppedPackets,
    stats.txDroppedPackets⟩

end IpStats

/-- The verdicts since the previous sample. -/
def PolicerStats.since (value prev : PolicerStats) : PolicerStats where
  passedBytes := value.passedBytes - prev.passedBytes
  passedPackets := value.passedPackets - prev.passedPackets
  droppedBytes := value.droppedBytes - prev.droppedBytes
  droppedPackets := value.droppedPackets - prev.droppedPackets

structure Collector where
  prev : Table TrafficKey TrafficValue
  totals : Table UInt32 IpStats
  prev6 : Table UInt32 TrafficValue
  ipv6 : IpStats
  prevPolicer : Table LimitKey PolicerStats
  idle4 : IdleTracker TrafficKey
  idle6 : IdleTracker UInt32
  lastPoll : Option ℕ
  /-- Set once the first poll has recorded its baseline samples. -/
  primed : Bool

namespace Collector

def new : Collector :=
  ⟨Table.empty, Table.empty, Table.empty, {}, Table.empty, {}, {}, none, false⟩

/-- `prune_ips`: drop the totals of addresses that are no longer configured. -/
def pruneIps (c : Collector) (ranges : List IpRange) : Collector :=
  { c with totals := c.totals.retain fun ip _ => ranges.any fun r => r.contains ip }

/-- The sample a value is compared with. A key without one was created since the last
poll and started at zero, but before the first poll it is a baseline. -/
def baseline {V : Type} (primed : Bool) (zero : V) : Option V → Option V
  | some prev => some prev
  | none => if primed then some zero else none

/-- One entry in the loop over `TRAFFIC`. -/
def addKey (primed : Bool) (prev : Table TrafficKey TrafficValue) (deltas : Table UInt32 Delta)
    (entry : TrafficKey × TrafficValue) : Table UInt32 Delta :=
  match baseline primed {} (prev entry.1) with
  | none => deltas
  | some prev =>
    let d := Delta.since entry.2 prev
    if d.isZero then deltas
    else deltas.insert entry.1.ipv4 (((deltas entry.1.ipv4).getD {}).add d)

/-- One entry in the loop over `TRAFFIC6`. -/
def addKey6 (primed : Bool) (prev : Table UInt32 TrafficValue) (d6 : Delta)
    (entry : UInt32 × TrafficValue) : Delta :=
  match baseline primed {} (prev entry.1) with
  | none => d6
  | some prev =>
    let d := Delta.since entry.2 prev
    if d.isZero then d6 else d6.add d

/-- One entry in the loop over `POLICER_STATS`. -/
def addVerdicts (primed : Bool) (prev : Table LimitKey PolicerStats)
    (totals : Table UInt32 IpStats) (entry : LimitKey × PolicerStats) : Table UInt32 IpStats :=
  match baseline primed ⟨0, 0, 0, 0⟩ (prev entry.1) with
  | none => totals
  | some prev =>
    let d := entry.2.since prev
    if d = ⟨0, 0, 0, 0⟩ then totals
    else totals.insert entry.1.ipv4
      (((totals entry.1.ipv4).getD {}).addPolicer entry.1.direction d)

/-- `carry_forward`: this poll's values and, after a failed read, the old samples of the
keys this poll could not see. -/
def carryForward {K V : Type} [DecidableEq K] (cur : List (K × V)) (old : Table K V)
    (incomplete : Bool) : Table K V := fun k =>
  match cur.lookup k with
  | some v => some v
  | none => if incomplete then old k else none

/-- The keys whose value differs from the previous sample, or that have none. -/
def changed {K V : Type} [DecidableEq K] [DecidableEq V] (cur : List (K × V)) (prev : Table K V)
    (k : K) : Bool :=
  match cur.lookup k with
  | none => false
  | some v => (prev k).all (· ≠ v)

/-- The `deltas` of `apply_poll`, by address. -/
def deltas (c : Collector) (inputs : PollInputs) (elapsed : Bool) : Table UInt32 Delta :=
  if elapsed then inputs.cur.foldl (addKey c.primed c.prev) Table.empty else Table.empty

/-- The `d6` of `apply_poll`. -/
def deltas6 (c : Collector) (inputs : PollInputs) (elapsed : Bool) : Delta :=
  if elapsed then inputs.cur6.foldl (addKey6 c.primed c.prev6) {} else {}

/-- The deltas on top of the totals. -/
def withDeltas (totals : Table UInt32 IpStats) (deltas : Table UInt32 Delta) :
    Table UInt32 IpStats := fun ip =>
  match deltas ip with
  | none => totals ip
  | some d => some (((totals ip).getD {}).addDelta d)

/-- `apply_poll`; `elapsed` tells whether any time has passed since the poll before. -/
def applyPoll (c : Collector) (inputs : PollInputs) (elapsed : Bool) : Collector × PollResult :=
  let present4 := inputs.cur.map Prod.fst
  let idle4 := c.idle4.observe present4 (changed inputs.cur c.prev)
  -- after a failed read an address that shows no key may still have one
  let totals := if inputs.incomplete then c.totals
    else c.totals.retain fun ip _ => present4.any fun k => k.ipv4 = ip
  let idle6 := c.idle6.observe (inputs.cur6.map Prod.fst) (changed inputs.cur6 c.prev6)
  let ipv6 := c.ipv6.addDelta (c.deltas6 inputs elapsed)
  let totals := withDeltas totals (c.deltas inputs elapsed)
  let totals := if elapsed then inputs.curPolicer.foldl (addVerdicts c.primed c.prevPolicer) totals
    else totals
  ({ c with
      prev := carryForward inputs.cur c.prev inputs.incomplete
      totals
      prev6 := carryForward inputs.cur6 c.prev6 inputs.incomplete
      ipv6
      prevPolicer := carryForward inputs.curPolicer c.prevPolicer inputs.incomplete
      idle4 := idle4.2
      idle6 := idle6.2
      primed := true },
    { totals := fun ip => (totals ip).map IpStats.ipTotals
      ipv6
      policer := fun ip => (totals ip).bind IpStats.policerTotals
      staleTraffic := idle4.1
      staleTraffic6 := idle6.1 })

/-- `poll`: after the first one at least a millisecond counts as elapsed, whatever the
clock says. -/
def poll (c : Collector) (inputs : PollInputs) (now : ℕ) : Collector × PollResult :=
  applyPoll { c with lastPoll := some now } inputs c.lastPoll.isSome

end Collector

end VmWatcher

import VmWatcher.Daemon.Collector
import VmWatcher.Misc.Tally

/-!
# Counting and polling

The counter maps, the collector that polls them and the engine that deletes their
entries, taking steps in any order. Each map has a ledger of what the data path counted,
and beside it stands what the polls reported for each key.
-/

namespace VmWatcher

/-- The counters of a traffic entry. -/
inductive TrafficCounter where
  | rxBytes
  | txBytes
  | rxPackets
  | txPackets
  deriving DecidableEq

/-- The byte counter of a direction. -/
def byteCounter (isTx : Bool) : TrafficCounter := if isTx then .txBytes else .rxBytes

/-- The counters of a policer entry. -/
inductive PolicerCounter where
  | passedBytes
  | passedPackets
  | droppedBytes
  | droppedPackets
  deriving DecidableEq

instance : Tally TrafficValue TrafficCounter where
  zero := {}
  get v
    | .rxBytes => v.rxBytes
    | .txBytes => v.txBytes
    | .rxPackets => v.rxPackets
    | .txPackets => v.txPackets
  get_zero := by rintro ⟨⟩ <;> rfl

instance : Tally Delta TrafficCounter where
  zero := {}
  get d
    | .rxBytes => d.rxBytes
    | .txBytes => d.txBytes
    | .rxPackets => d.rxPackets
    | .txPackets => d.txPackets
  get_zero := by rintro ⟨⟩ <;> rfl

instance : Tally PolicerStats PolicerCounter where
  zero := ⟨0, 0, 0, 0⟩
  get v
    | .passedBytes => v.passedBytes
    | .passedPackets => v.passedPackets
    | .droppedBytes => v.droppedBytes
    | .droppedPackets => v.droppedPackets
  get_zero := by rintro ⟨⟩ <;> rfl

namespace IpStats

/-- The traffic counters of an address. -/
def traffic (stats : IpStats) : TrafficCounter → ℕ
  | .rxBytes => stats.rxBytes
  | .txBytes => stats.txBytes
  | .rxPackets => stats.rxPackets
  | .txPackets => stats.txPackets

/-- The verdicts of an address in one direction. -/
def verdicts (stats : IpStats) (isTx : Bool) : PolicerCounter → ℕ
  | .passedBytes => if isTx then stats.txPassedBytes else stats.rxPassedBytes
  | .passedPackets => if isTx then stats.txPassedPackets else stats.rxPassedPackets
  | .droppedBytes => if isTx then stats.txDroppedBytes else stats.rxDroppedBytes
  | .droppedPackets => if isTx then stats.txDroppedPackets else stats.rxDroppedPackets

end IpStats

namespace Collector

/-- What a poll reports for a key, from its sample and from what was read of it. -/
def report {V C : Type} [Tally V C] (primed elapsed : Bool) (prev read : Option V) (c : C) : ℕ :=
  match read with
  | none => 0
  | some v => if elapsed then Tally.gain (baseline primed Tally.zero prev) v c else 0

end Collector

structure Metering where
  collector : Collector := Collector.new
  traffic : Ledger TrafficKey TrafficValue TrafficCounter := {}
  traffic6 : Ledger UInt32 TrafficValue TrafficCounter := {}
  policer : Ledger LimitKey PolicerStats PolicerCounter := {}
  /-- What the polls reported so far, for each key. -/
  reported : TrafficKey → TrafficCounter → ℕ := fun _ _ => 0
  reported6 : UInt32 → TrafficCounter → ℕ := fun _ _ => 0
  reportedPolicer : LimitKey → PolicerCounter → ℕ := fun _ _ => 0
  /-- The keys that the latest poll reported stale. -/
  stale : List TrafficKey := []
  stale6 : List UInt32 := []

namespace Metering

/-- A poll reads the maps as they are. -/
structure Sees (s : Metering) (inputs : PollInputs) : Prop where
  traffic : Reads inputs.cur s.traffic.entries inputs.incomplete
  traffic6 : Reads inputs.cur6 s.traffic6.entries inputs.incomplete
  policer : Reads inputs.curPolicer s.policer.entries inputs.incomplete

/-- A poll, and what it reports for each key. -/
def poll (inputs : PollInputs) (elapsed : Bool) (s : Metering) : Metering :=
  let c := s.collector
  let after := c.applyPoll inputs elapsed
  { collector := after.1
    traffic := s.traffic.polled
    traffic6 := s.traffic6.polled
    policer := s.policer.polled
    reported := fun k n =>
      s.reported k n + Collector.report c.primed elapsed (c.prev k) (inputs.cur.lookup k) n
    reported6 := fun k n =>
      s.reported6 k n + Collector.report c.primed elapsed (c.prev6 k) (inputs.cur6.lookup k) n
    reportedPolicer := fun k n => s.reportedPolicer k n +
      Collector.report c.primed elapsed (c.prevPolicer k) (inputs.curPolicer.lookup k) n
    stale := after.2.staleTraffic
    stale6 := after.2.staleTraffic6 }

/-- Any run over polls of the given kind. A traffic entry is deleted when the latest poll
reported it stale or when its TAP, one of those that may, is gone. -/
inductive Run (gone : UInt32 → Prop) (polls : PollInputs → Prop) : Metering → Prop where
  | new : Run gone polls {}
  | count {s : Metering} {k : TrafficKey} {v : TrafficValue} : Run gone polls s →
      (∀ c, Tally.of (s.traffic.entries k) c ≤ Tally.get v c) →
      Run gone polls { s with traffic := s.traffic.grow k v }
  | count6 {s : Metering} {k : UInt32} {v : TrafficValue} : Run gone polls s →
      (∀ c, Tally.of (s.traffic6.entries k) c ≤ Tally.get v c) →
      Run gone polls { s with traffic6 := s.traffic6.grow k v }
  | verdict {s : Metering} {k : LimitKey} {v : PolicerStats} : Run gone polls s →
      (∀ c, Tally.of (s.policer.entries k) c ≤ Tally.get v c) →
      Run gone polls { s with policer := s.policer.grow k v }
  | delete {s : Metering} {k : TrafficKey} : Run gone polls s →
      k ∈ s.stale ∨ gone k.ifindex → Run gone polls { s with traffic := s.traffic.delete k }
  | delete6 {s : Metering} {k : UInt32} : Run gone polls s →
      k ∈ s.stale6 ∨ gone k → Run gone polls { s with traffic6 := s.traffic6.delete k }
  | deleteVerdicts {s : Metering} (k : LimitKey) : Run gone polls s →
      Run gone polls { s with policer := s.policer.delete k }
  | poll {s : Metering} {inputs : PollInputs} (elapsed : Bool) : Run gone polls s →
      s.Sees inputs → polls inputs → Run gone polls (s.poll inputs elapsed)
  | prune {s : Metering} (ranges : List IpRange) : Run gone polls s →
      Run gone polls { s with collector := s.collector.pruneIps ranges }

end Metering

end VmWatcher

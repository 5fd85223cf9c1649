import VmWatcher.Daemon.Engine

/-!
# Replies to requests (`vm-bandwidth/src/daemon.rs`)

The replies show the snapshot of the latest tick next to the limiter and the configuration
of the moment: the ranges of the two are paired by their index.
-/

namespace VmWatcher

open Ipc

namespace Daemon

/-- The summary of a range of the snapshot. -/
def rangeSummary (rs : RangeStats) (limited : ℕ) : RangeSummary where
  name := rs.name
  range := rs.range
  rxBytes := rs.rxBytes
  txBytes := rs.txBytes
  ipCount := rs.ips.length
  limited := limited
  rxDroppedBytes := rs.rxDroppedBytes
  txDroppedBytes := rs.txDroppedBytes

/-- The pseudo-range of the IPv6 aggregate. -/
def ipv6Summary (v6 : IpStats) : RangeSummary where
  name := ipv6RangeName
  range := ""
  rxBytes := v6.rxBytes
  txBytes := v6.txBytes
  ipCount := 0
  limited := 0
  rxDroppedBytes := 0
  txDroppedBytes := 0

/-- The ranges of `build_status`. The limited flows are counted in the configured range of
the same index. -/
def rangeSummaries (env : RequestInputs) (d : Daemon) : List RangeSummary :=
  match d.lastSnapshot with
  | none => []
  | some snap =>
    (snap.ranges.mapIdx fun i rs =>
      rangeSummary rs (((d.engine.config.ranges[i]?).map fun vr =>
        d.engine.limiter.limitedCount vr.inner.start vr.inner.stop env.flows).getD 0)) ++
      [ipv6Summary d.lastIpv6]

/-- `build_status`. -/
def buildStatus (env : RequestInputs) (d : Daemon) : Status where
  protocolVersion := protocolVersion
  generation := d.engine.generation
  configLoadedAt := d.configLoadedAt
  lastReloadAt := d.lastReloadAt
  lastReloadOk := d.lastReloadOk
  lastReloadError := d.lastReloadError
  bridge := d.startup.bridge
  tapCount := d.tapCount
  configWatcherHealthy := d.configWatcherHealthy
  configWatcherErrorsTotal := d.configWatcherErrorsTotal
  configWatcherLastError := d.configWatcherLastError
  dataplaneDegraded := d.rollbackHealth.degraded
  rollbackFailuresTotal := d.rollbackHealth.failuresTotal
  tapAttachFailuresTotal := d.tapAttachFailuresTotal
  metricsPushSuccessesTotal := env.pushCounters.successes
  metricsPushFailuresTotal := env.pushCounters.failures
  metricsPushSkippedTotal := env.pushCounters.skipped
  oversizedRxPackets := d.oversized.1.packets
  oversizedRxBytes := d.oversized.1.bytes
  oversizedTxPackets := d.oversized.2.packets
  oversizedTxBytes := d.oversized.2.bytes
  swlMapCapacity := d.engine.config.swlMapMaxEntries
  swlMapUsed := env.swlKeys.length % 2 ^ 32
  ranges := d.rangeSummaries env

/-- `state_label`. -/
def stateLabel (limited : Bool) : String := if limited then "LIMITED" else "NORMAL"

/-- The row of an address in `build_range_detail`. -/
def ipDetail (env : RequestInputs) (d : Daemon) (ip : UInt32) (stats : IpStats) :
    IpDetail Unit :=
  let limiter := d.engine.limiter
  let eff := limiter.effectivePolicy ip
  let rxPol := eff.bind EffectivePolicy.rx
  let txPol := eff.bind EffectivePolicy.tx
  { ip
    rxBps := ()
    txBps := ()
    rxBytes := stats.rxBytes
    txBytes := stats.txBytes
    rxPackets := stats.rxPackets
    txPackets := stats.txPackets
    rxThreshold := (rxPol.map DirPolicy.thresholdBps).getD 0
    txThreshold := (txPol.map DirPolicy.thresholdBps).getD 0
    rxLimit := (rxPol.map DirPolicy.limitBps).getD 0
    txLimit := (txPol.map DirPolicy.limitBps).getD 0
    rxState := stateLabel (limiter.isLimited (ip, dirRx))
    txState := stateLabel (limiter.isLimited (ip, dirTx))
    rxRemaining := limiter.remainingSecs (ip, dirRx) env.now
    txRemaining := limiter.remainingSecs (ip, dirTx) env.now
    rxDroppedBytes := stats.rxDroppedBytes
    txDroppedBytes := stats.txDroppedBytes
    rxDroppedPackets := stats.rxDroppedPackets
    txDroppedPackets := stats.txDroppedPackets }

/-- `build_range_detail`. -/
def buildRangeDetail (env : RequestInputs) (index : ℕ) (d : Daemon) :
    Option (RangeDetail Unit) := do
  let snap ← d.lastSnapshot
  let rs ← snap.ranges[index]?
  return {
    name := rs.name
    range := rs.range
    rxBytes := rs.rxBytes
    txBytes := rs.txBytes
    rxDroppedBytes := rs.rxDroppedBytes
    txDroppedBytes := rs.txDroppedBytes
    rxDroppedPackets := rs.rxDroppedPackets
    txDroppedPackets := rs.txDroppedPackets
    ips := rs.ips.map fun row => d.ipDetail env row.1 row.2 }

/-- `handle_request`. -/
def handleRequest (env : RequestInputs) (d : Daemon) : Request → Response Unit
  | .overview => .status (d.buildStatus env)
  | .rangeDetail index =>
    match d.buildRangeDetail env index with
    | some detail => .rangeDetail detail
    | none => .error s!"range index {index} out of bounds"

end Daemon

end VmWatcher

import VmWatcher.Common

/-!
# The config document (`vm-bandwidth-core/src/config.rs`)

What the TOML deserializer hands to `parse`: every section with the defaults of the keys
that are missing.
-/

namespace VmWatcher

structure NetworkConfig where
  bridge : String
  deriving DecidableEq, Repr

structure CollectorConfig where
  refreshIntervalMs : ℕ := 1000
  interfaceScanIntervalSecs : ℕ := 5
  mapMaxEntries : UInt32 := 8192
  swlMapMaxEntries : UInt32 := 256
  deriving DecidableEq, Repr

/-- Capability switches of features that are expensive or experimental. -/
structure ExperimentalConfig where
  enableSlidingWindowLog : Bool := false
  deriving DecidableEq, Repr

structure MetricsConfig where
  enabled : Bool := false
  url : String := "http://127.0.0.1:8428"
  allowInsecureHttp : Bool := false
  pushIntervalSecs : ℕ := 60
  deriving DecidableEq, Repr

structure DisplayConfig where
  showInterface : Bool := false
  showPackets : Bool := false
  showIdleIps : Bool := false
  defaultSort : String := "ip"
  deriving DecidableEq, Repr

/-- A limiter parameter set as written in the file: strings with units, all optional. -/
structure PolicyEntry where
  rxThreshold : Option String := none
  txThreshold : Option String := none
  rxLimit : Option String := none
  txLimit : Option String := none
  window : Option String := none
  triggerRatio : Option String := none
  limitDuration : Option String := none
  burst : Option String := none
  algorithm : Option String := none
  limitWindow : Option String := none
  deriving DecidableEq, Repr

structure OverrideEntry where
  ip : String
  policy : PolicyEntry
  deriving DecidableEq, Repr

structure IpRangeEntry where
  name : String
  range : String
  policy : Option PolicyEntry := none
  overrides : List OverrideEntry := []
  deriving DecidableEq, Repr

structure Config where
  network : NetworkConfig
  collector : CollectorConfig := {}
  display : DisplayConfig := {}
  metrics : MetricsConfig := {}
  experimental : ExperimentalConfig := {}
  ipRanges : List IpRangeEntry := []
  deriving DecidableEq, Repr

end VmWatcher

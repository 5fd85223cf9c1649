import VmWatcher.Core.IpRange
import VmWatcher.Core.Policy
import VmWatcher.Core.Units

/-!
# Configuration (`vm-bandwidth-core/src/config.rs`)

Validation of a deserialized document. The `url` crate's parser is the parameter
`parseUrl`.
-/

namespace VmWatcher

/-- Detail-page column ordering. -/
inductive SortMode where
  | ip
  | rx
  | tx
  | total
  deriving DecidableEq, Repr

/-- One validated range: its addresses plus the policy inputs. The overrides are listed
in the order their map enumerates them. -/
structure ValidatedRange where
  inner : IpRange
  policy : PolicyFields
  overrides : List (UInt32 × PolicyFields)
  deriving DecidableEq, Repr

/-- Config after full validation; everything downstream consumes this. -/
structure ValidatedConfig where
  bridge : String
  refreshIntervalMs : ℕ
  interfaceScanIntervalSecs : ℕ
  mapMaxEntries : UInt32
  swlMapMaxEntries : UInt32
  showInterface : Bool
  showPackets : Bool
  showIdleIps : Bool
  defaultSort : SortMode
  metricsEnabled : Bool
  metricsUrl : String
  metricsPushIntervalSecs : ℕ
  ranges : List ValidatedRange
  deriving DecidableEq, Repr

/-! ### Policies -/

/-- `parse_algorithm`: the `ALGO_*` constant of a config string. -/
def parseAlgorithm : String → Except String UInt32
  | "token_bucket" => .ok algoTokenBucket
  | "leaky_bucket" => .ok algoLeakyBucket
  | "fixed_window" => .ok algoFixedWindow
  | "sliding_window_counter" => .ok algoSlidingWindowCounter
  | "sliding_window_log" => .ok algoSlidingWindowLog
  | "gcra" => .ok algoGcra
  | other =>
    .error (s!"unknown algorithm '{other}' (expected token_bucket, leaky_bucket, " ++
      "fixed_window, sliding_window_counter, sliding_window_log or gcra)")

/-- An optional value of the file, parsed if it is there. -/
def parseField {α : Type} (parse : String → Except String α) (error : String → String) :
    Option String → Except String (Option α)
  | none => .ok none
  | some s => ((parse s).mapError error).map some

namespace PolicyEntry

def isEmpty (entry : PolicyEntry) : Bool := entry = {}

/-- `into_fields`: parse every present unit. `what` names the offending scope. -/
def intoFields (entry : PolicyEntry) (what : String) : Except String PolicyFields := do
  let rate (v : Option String) (name : String) :=
    parseField parseRateBps (fun e => s!"{what}: {e} ({name})") v
  let dur (v : Option String) (name : String) :=
    parseField parseDurationSecs (fun e => s!"{what}: {e} ({name})") v
  return {
    rxThresholdBps := ← rate entry.rxThreshold "rx_threshold"
    txThresholdBps := ← rate entry.txThreshold "tx_threshold"
    rxLimitBps := ← rate entry.rxLimit "rx_limit"
    txLimitBps := ← rate entry.txLimit "tx_limit"
    windowSecs := ← dur entry.window "window"
    triggerRatioPct :=
      ← parseField parsePercent (fun e => s!"{what}: {e} (trigger_ratio)") entry.triggerRatio
    limitDurationSecs := ← dur entry.limitDuration "limit_duration"
    burstBytes := ← parseField parseBytes (fun e => s!"{what}: {e} (burst)") entry.burst
    algorithm := ← parseField parseAlgorithm (fun e => s!"{what}: {e}") entry.algorithm
    limitWindowSecs := ← dur entry.limitWindow "limit_window" }

end PolicyEntry

def minRateBps : ℕ := 100000
def maxRateBps : ℕ := 1000000000000
def maxBurstBytes : ℕ := 1024 * 1024 * 1024
def minLimitWindowSecs : ℕ := 1
def maxLimitWindowSecs : ℕ := 60

/-- Sanity cap on the map of the sliding window logs. -/
def maxSwlMapEntries : UInt32 := 65536

/-- Upper bound on the collector's tick and scan periods. -/
def maxCollectorIntervalSecs : ℕ := 3600

/-- One optional value in `check_policy_bounds`. -/
def checkWithin (low high : ℕ) (error : String) (value : Option ℕ) : Except String Unit :=
  match value with
  | none => .ok ()
  | some v => if low ≤ v ∧ v ≤ high then .ok () else .error error

/-- `check_policy_bounds`: arithmetic-safe bounds for rates, burst and window. -/
def checkPolicyBounds (fields : PolicyFields) (what : String) : Except String Unit := do
  let rate (name : String) :=
    checkWithin minRateBps maxRateBps s!"{what}: {name} must be between 100Kbps and 1Tbps"
  rate "rx_threshold" fields.rxThresholdBps
  rate "tx_threshold" fields.txThresholdBps
  rate "rx_limit" fields.rxLimitBps
  rate "tx_limit" fields.txLimitBps
  checkWithin 0 maxBurstBytes s!"{what}: burst must be at most 1GiB" fields.burstBytes
  checkWithin minLimitWindowSecs maxLimitWindowSecs
    s!"{what}: limit_window must be between 1s and 60s" fields.limitWindowSecs

/-- `check_swl_enabled`: the sliding window log needs its explicit switch. -/
def checkSwlEnabled (eff : EffectivePolicy) (enabled : Bool) (what : String) :
    Except String Unit :=
  let usesSwl (d : Option DirPolicy) := d.any fun p => p.algorithm = algoSlidingWindowLog
  if (usesSwl eff.rx || usesSwl eff.tx) && !enabled then
    .error (s!"policy for {what}: algorithm = \"sliding_window_log\" requires " ++
      "[experimental] enable_sliding_window_log = true — every packet scans a " ++
      "1024-entry ring under a spin lock and the log gets lenient above roughly " ++
      "1024/limit_window packets per second; it is not a general-purpose choice")
  else .ok ()

/-- One override of a range in `parse`. -/
def attachOverride (swlEnabled : Bool) (scope : String) (range : IpRange)
    (policy : PolicyFields) (overrides : List (UInt32 × PolicyFields)) (ov : OverrideEntry) :
    Except String (List (UInt32 × PolicyFields)) := do
  match parseIpv4 (trim ov.ip.toList) with
  | none => throw s!"{scope}: override ip {debugStr ov.ip} is not a valid IPv4"
  | some ip =>
    if ip < range.start ∨ ip > range.stop then
      throw s!"{scope}: override ip {ipv4Display ip} is outside the range {range.display}"
    if ov.policy.isEmpty then
      throw s!"{scope}: override for ip {ov.ip} sets no policy fields"
    let fields ← ov.policy.intoFields s!"{scope} override {ov.ip}"
    checkPolicyBounds fields s!"{scope} override {ov.ip}"
    let eff ← resolve policy (some fields) s!"{scope} ip {ov.ip}"
    checkSwlEnabled eff swlEnabled s!"{scope} ip {ov.ip}"
    if overrides.any (·.1 = ip) then
      throw s!"{scope}: duplicate override for ip {ov.ip}"
    return overrides ++ [(ip, fields)]

/-- The default policy of a range in `parse`, empty when none is set. -/
def rangePolicy (entry : IpRangeEntry) (scope : String) : Except String PolicyFields :=
  match entry.policy.filter fun p => !p.isEmpty with
  | none => return {}
  | some p => do
      let fields ← p.intoFields scope
      checkPolicyBounds fields scope
      return fields

/-- One range in `parse`: its parsed default policy and overrides. -/
def attachPolicy (swlEnabled : Bool) (entry : IpRangeEntry) (range : IpRange) :
    Except String ValidatedRange := do
  let scope := s!"range {entry.name}"
  let policy ← rangePolicy entry scope
  let eff ← resolve policy none scope
  checkSwlEnabled eff swlEnabled scope
  let overrides ← entry.overrides.foldlM (attachOverride swlEnabled scope range policy) []
  return ⟨range, policy, overrides⟩

/-! ### The metrics endpoint -/

/-- `url::Host`. -/
inductive Host where
  | domain (name : String)
  | ipv4 (addr : UInt32)
  | ipv6 (addr : BitVec 128)
  deriving DecidableEq, Repr

namespace Host

/-- The hosts that plain HTTP may go to: `localhost`, `127.0.0.0/8` and `::1`. -/
def isLoopback : Host → Bool
  | domain name => name = "localhost"
  | ipv4 addr => addr / 16777216 = 127
  | ipv6 addr => addr = 1

end Host

/-- What the code reads of a parsed `url::Url`. -/
structure Url where
  scheme : String
  host : Option Host
  hostStr : Option String
  port : Option UInt16
  deriving DecidableEq, Repr

section Metrics

variable (parseUrl : String → Except String Url)

/-- `safe_endpoint_display`: scheme, host and explicit port only. -/
def safeEndpointDisplay (raw : String) : String :=
  match (parseUrl raw).toOption with
  | none => "<unparseable metrics endpoint>"
  | some url =>
    match url.hostStr, url.port with
    | none, _ => "<unparseable metrics endpoint>"
    | some host, some port => s!"{url.scheme}://{host}:{port}"
    | some host, none => s!"{url.scheme}://{host}"

/-- `validate_metrics_url`. -/
def validateMetricsUrl (raw : String) (allowInsecureHttp : Bool) : Except String Unit := do
  let url ← (parseUrl raw).mapError fun e => s!"metrics.url is not a valid URL: {e}"
  match url.host with
  | none => throw "metrics.url must include a host"
  | some host =>
    match url.scheme with
    | "https" => return ()
    | "http" =>
      if host.isLoopback || allowInsecureHttp then
        return ()
      throw (s!"metrics.url {safeEndpointDisplay parseUrl raw}: remote plain HTTP would send " ++
        "customer bandwidth figures unencrypted; use https:// or set allow_insecure_http = true " ++
        "to accept the risk")
    | other => throw s!"metrics.url scheme must be http:// or https://; got {debugStr other}"

/-- The checks of the `[metrics]` section in `parse`. -/
def checkMetrics (metrics : MetricsConfig) : Except String Unit := do
  if metrics.enabled then
    validateMetricsUrl parseUrl metrics.url metrics.allowInsecureHttp
    if ¬(5 ≤ metrics.pushIntervalSecs ∧ metrics.pushIntervalSecs ≤ 3600) then
      throw ("metrics.push_interval_secs must be within 5..=3600; " ++
        s!"got {metrics.pushIntervalSecs}")

end Metrics

/-! ### The document -/

/-- The checks of the `[collector]` section in `parse`. -/
def checkCollector (collector : CollectorConfig) : Except String Unit := do
  let refreshMs := collector.refreshIntervalMs
  if ¬(1000 ≤ refreshMs ∧ refreshMs ≤ maxCollectorIntervalSecs * 1000) ∨ refreshMs % 1000 ≠ 0 then
    throw ("collector.refresh_interval_ms must be a whole number of seconds within " ++
      s!"1000..={maxCollectorIntervalSecs * 1000}; got {refreshMs}")
  let scanSecs := collector.interfaceScanIntervalSecs
  if ¬(1 ≤ scanSecs ∧ scanSecs ≤ maxCollectorIntervalSecs) then
    throw ("collector.interface_scan_interval_secs must be within " ++
      s!"1..={maxCollectorIntervalSecs}; got {scanSecs}")
  if collector.mapMaxEntries = 0 then
    throw "collector.map_max_entries must be > 0"
  if collector.swlMapMaxEntries = 0 then
    throw "collector.swl_map_max_entries must be > 0"
  if collector.swlMapMaxEntries > maxSwlMapEntries then
    throw (s!"collector.swl_map_max_entries must be at most {maxSwlMapEntries} " ++
      "(each entry preallocates ~16.4 KiB of kernel memory)")

/-- The `default_sort` of the `[display]` section. -/
def parseSort : String → Except String SortMode
  | "ip" => .ok .ip
  | "rx" => .ok .rx
  | "tx" => .ok .tx
  | "total" => .ok .total
  | other =>
    .error s!"display.default_sort must be one of ip, rx, tx, total; got {debugStr other}"

namespace Config

/-- `parse`, once the document is deserialized. -/
def parse (parseUrl : String → Except String Url) (config : Config) :
    Except String ValidatedConfig := do
  let bridge := String.ofList (trim config.network.bridge.toList)
  if bridge.isEmpty then
    throw "network.bridge must not be empty"
  checkCollector config.collector
  let defaultSort ← parseSort config.display.defaultSort
  checkMetrics parseUrl config.metrics
  let ranges ← validateRanges config.ipRanges
  let validated ← (config.ipRanges.zip ranges).mapM fun (entry, range) =>
    attachPolicy config.experimental.enableSlidingWindowLog entry range
  return {
    bridge
    refreshIntervalMs := config.collector.refreshIntervalMs
    interfaceScanIntervalSecs := config.collector.interfaceScanIntervalSecs
    mapMaxEntries := config.collector.mapMaxEntries
    swlMapMaxEntries := config.collector.swlMapMaxEntries
    showInterface := config.display.showInterface
    showPackets := config.display.showPackets
    showIdleIps := config.display.showIdleIps
    defaultSort
    metricsEnabled := config.metrics.enabled
    metricsUrl := String.ofList (trimEndMatches (· = '/') config.metrics.url.toList)
    metricsPushIntervalSecs := config.metrics.pushIntervalSecs
    ranges := validated }

end Config

namespace ValidatedRange

/-- The scopes a range's policies are resolved in: the range itself, then its overrides
by address. -/
def scopes (vr : ValidatedRange) : List (String × Option PolicyFields) :=
  let rangeScope := s!"range {vr.inner.name}"
  (rangeScope, none) :: (vr.overrides.insertionSort fun a b => a.1 ≤ b.1).map fun (ip, fields) =>
    (s!"{rangeScope} ip {ipv4Display ip}", some fields)

end ValidatedRange

/-- The warning about one direction of one scope, if its policy cannot admit every
policed frame. -/
def smallBurstWarning (scope dir : String) (dirPolicy : DirPolicy) : Option String :=
  let admissible := dirPolicy.maxAdmissibleFrameBytes
  if admissible < maxPolicedLen then
    some (s!"{scope}: the {dir} policy admits frames of at most {admissible} B " ++
      "(burst, or limit x limit_window for window algorithms), below " ++
      s!"the {maxPolicedLen} B the policer judges whole: while limited, " ++
      "every larger frame (e.g. a GSO/TSO aggregate) is dropped instead " ++
      "of rate-limited; use at least 64KiB")
  else none

namespace ValidatedConfig

/-- `small_burst_warnings`: one warning per range or override direction whose policy can
never admit a frame the data path polices whole. -/
def smallBurstWarnings (cfg : ValidatedConfig) : List String :=
  cfg.ranges.flatMap fun vr => vr.scopes.flatMap fun (scope, overrideFields) =>
    match resolve vr.policy overrideFields scope with
    | .error _ => []
    | .ok eff =>
      [("rx", eff.rx), ("tx", eff.tx)].filterMap fun (dir, dirPolicy) =>
        dirPolicy.bind (smallBurstWarning scope dir)

end ValidatedConfig

end VmWatcher

import VmWatcher.Core.Ipc
import VmWatcher.Core.TimeFmt
import VmWatcher.Daemon.Oversized
import VmWatcher.Daemon.Push
import VmWatcher.Daemon.Snapshot
import VmWatcher.Daemon.System

/-!
# The engine and its handlers (`vm-bandwidth/src/daemon.rs`)

One task owns the whole state, so the handlers run one after the other: a collection tick,
a reload of the file, an error of the file watcher, a scan for TAPs, a request. The maps a
handler writes are kept apart, and it may see any of its map operations fail. What a
handler reads of the world, and the orders its hash maps are enumerated in, are its
arguments. The counts of the status are natural numbers: what they count are steps of the
run, whose number bounds them. Logging and the removal of idle counters are left out.
-/

namespace VmWatcher

/-- Two files are compared by core's instance, whatever else is imported. -/
instance decEqFile : DecidableEq ByteArray := ByteArray.instDecidableEq

/-- The parsers of other crates, and how `std` words an encoding error. -/
structure Parsers where
  utf8Error : ByteArray → String
  fromToml : String → Except String Config
  parseUrl : String → Except String Url

namespace Parsers

/-- `config::parse`. -/
def parse (p : Parsers) (text : String) : Except String ValidatedConfig := do
  let config ← (p.fromToml text).mapError fun e => s!"invalid TOML: {e}"
  config.parse p.parseUrl

/-- `parse_config`: errors of the file's contents name the file. -/
def parseConfig (p : Parsers) (bytes : ByteArray) (path : String) :
    Except String ValidatedConfig :=
  match String.fromUTF8? bytes with
  | none => .error s!"config is not valid UTF-8: {p.utf8Error bytes}"
  | some text => (p.parse text).mapError fun e => s!"{e} (in {path})"

end Parsers

/-- The degraded flag and the count of failed rollback steps. -/
structure RollbackHealth where
  degraded : Bool := false
  failuresTotal : ℕ := 0
  deriving DecidableEq, Repr

/-- `record`: a report of maps that could not be restored counts all of its failures. -/
def RollbackHealth.record (health : RollbackHealth) (report : RollbackReport) : RollbackHealth :=
  if report.dataplaneConsistent then health
  else ⟨true, health.failuresTotal + report.failures.length⟩

/-- The state of `Engine`, less its maps. -/
structure Daemon where
  /-- The limiter, the visible configuration and its generation. -/
  engine : Engine
  /-- The generation the timers were last told of. -/
  configWatch : ℕ
  configLoadedAt : String
  lastReloadAt : String
  lastReloadOk : Bool
  lastReloadError : String
  /-- The contents of the file when it was last applied. -/
  lastConfigBytes : ByteArray
  configWatcherHealthy : Bool
  configWatcherErrorsTotal : ℕ
  configWatcherLastError : String
  rollbackHealth : RollbackHealth
  startup : Startup
  tapCount : ℕ
  tapAttachFailuresTotal : ℕ
  collector : Collector
  lastSnapshot : Option Snapshot
  lastTotals : Table UInt32 IpTotals
  lastPolicer : Table UInt32 PolicerIpTotals
  lastIpv6 : IpStats
  oversized : OversizedStats × OversizedStats

/-- What a collection tick reads, and the orders of its hash maps. -/
structure TickInputs where
  inputs : PollInputs
  /-- When the poll runs. -/
  polledAt : ℕ
  /-- The addresses that own totals. -/
  rows : List UInt32
  /-- `now_secs`. -/
  now : ℕ
  /-- The addresses the limiter evaluates. -/
  ips : List UInt32
  oversized : List OversizedItem

/-- What a reload reads, and the orders of its hash maps and sets. -/
structure ReloadInputs where
  /-- What reading the file gives. -/
  read : Except String ByteArray
  nowUnix : ℕ
  now : ℕ
  limited : List FlowKey
  oldPrefixes : List Cidr
  newPrefixes : List Cidr

/-- What answering a request reads, and the order of the limiter's states. -/
structure RequestInputs where
  now : ℕ
  flows : List FlowKey
  /-- The keys of `SWL_LOG` that could be read. -/
  swlKeys : List LimitKey
  pushCounters : PushCounters

namespace Daemon

/-! ### Collection ticks -/

/-- What the collector makes of the poll of a tick. -/
def polled (env : TickInputs) (d : Daemon) : Collector × PollResult :=
  d.collector.poll env.inputs env.polledAt

/-- What the limiter decides in a tick. -/
def ticked (reaches : RollingWindow → ℕ → Bool) (env : TickInputs) (d : Daemon) :
    Limiter × List LimitAction :=
  d.engine.limiter.tick reaches env.now (d.polled env).2.totals env.ips

/-- `surface_rollback_report` for each failed action of a tick. -/
def surfaceFailures (health : RollbackHealth) (failures : List TickActionFailure) :
    RollbackHealth :=
  failures.foldl (fun health failure => health.record failure.report) health

/-- `collect_tick`. -/
def collectTick (reaches : RollingWindow → ℕ → Bool) (env : TickInputs) (d : Daemon) :
    Prog Daemon := do
  let cfg := d.engine.config
  let (collector, result) := d.polled env
  let (limiter, actions) := d.ticked reaches env
  let (limiter, failures) ← applyTickActions limiter actions
  return { d with
    engine := { d.engine with limiter }
    collector
    rollbackHealth := surfaceFailures d.rollbackHealth failures
    lastTotals := result.totals
    lastIpv6 := result.ipv6
    lastPolicer := result.policer
    lastSnapshot := some (.ofTotals cfg.ipRanges cfg.showIdleIps collector.totals env.rows)
    oversized := readOversized env.oversized }

/-! ### Reloads -/

/-- `apply_config`. -/
def applyConfig (env : ReloadInputs) (newCfg : ValidatedConfig) (d : Daemon) :
    Prog (Daemon × Except AnyError Unit) :=
  match checkReload d.startup d.engine.config newCfg env.oldPrefixes env.newPrefixes with
  | .error e => return (d, .error ⟨[e]⟩)
  | .ok () =>
    match d.engine.limiter.planReload newCfg env.now env.limited with
    | .error e => return (d, .error ⟨[e]⟩)
    | .ok plan => do
      match ← applyAndCommit d.engine env.oldPrefixes env.newPrefixes plan newCfg with
      | (engine, .ok ()) =>
        return ({ d with engine, collector := d.collector.pruneIps newCfg.ipRanges }, .ok ())
      | (engine, .error rb) =>
        return ({ d with engine, rollbackHealth := d.rollbackHealth.record rb.report },
          .error rb.message)

/-- The status fields of a reload that was rejected. -/
def rejectReload (error : String) (d : Daemon) : Daemon :=
  { d with lastReloadOk := false, lastReloadError := error }

/-- `reload` up to its `collect_tick`, which runs when a configuration was applied. -/
def reloadFile (p : Parsers) (path : String) (env : ReloadInputs) (d : Daemon) :
    Prog (Daemon × Bool) :=
  let stamp := formatUnixUtc env.nowUnix
  let d := { d with lastReloadAt := stamp }
  match env.read with
  | .error e => return (d.rejectReload s!"cannot read {path}: {e}", false)
  | .ok bytes =>
    if bytes = d.lastConfigBytes then
      return ({ d with lastReloadOk := true, lastReloadError := "" }, false)
    else
      match p.parseConfig bytes path with
      | .error e => return (d.rejectReload e, false)
      | .ok newCfg => do
        match ← d.applyConfig env newCfg with
        | (d, .error e) => return (d.rejectReload e.display, false)
        | (d, .ok ()) =>
          return ({ d with
            configWatch := d.engine.generation
            lastReloadOk := true
            lastReloadError := ""
            configLoadedAt := stamp
            lastConfigBytes := bytes }, true)

/-! ### The other handlers -/

/-- `record_watcher_error`. -/
def recordWatcherError (e : String) (d : Daemon) : Daemon :=
  { d with
    configWatcherHealthy := false
    configWatcherErrorsTotal := d.configWatcherErrorsTotal + 1
    configWatcherLastError := e }

/-- `rescan_taps`, as far as the status shows it: the TAPs that are attached after a scan
and the attaches that failed in it, unless the scan itself failed. -/
def rescanTaps (scan : Option (ℕ × ℕ)) (d : Daemon) : Daemon :=
  match scan with
  | none => d
  | some (taps, failed) =>
    { d with tapCount := taps, tapAttachFailuresTotal := d.tapAttachFailuresTotal + failed }

end Daemon

end VmWatcher

import VmWatcher.Daemon.Engine
import VmWatcher.Ebpf.Classifier
import VmWatcher.Misc.OpAmid

/-!
# Runs of the daemon (`vm-bandwidth/src/daemon.rs`)

`run_daemon` puts the engine together and then serves its handlers in whatever order their
events come. Packets pass through the classifiers all the while, between any two map
operations of a handler.
-/

namespace VmWatcher

open OpProg

/-! ### Startup -/

/-- The capacity of the whitelist trie: twice the prefixes, rounded up to a power of two. -/
def whitelistCapacity (prefixes : List Cidr) : ℕ :=
  Nat.nextPowerOfTwo (min (max prefixes.length 1 % 2 ^ 32 * 2) (2 ^ 32 - 1)) % 2 ^ 32

/-- The loop that fills the trie. -/
def fillWhitelist : List Cidr → Prog (Except AnyError Unit)
  | [] => return .ok ()
  | c :: prefixes => do
    match ← attempt (.wlInsert c) with
    | .error e => return .error (e.context s!"inserting whitelist prefix {c.display}")
    | .ok () => fillWhitelist prefixes

/-- What `run_daemon` reads before its engine runs. -/
structure StartInputs where
  /-- What reading the file gives. -/
  read : Except String ByteArray
  nowUnix : ℕ
  now : ℕ
  /-- The TAPs attached by the first scan, and its failures. -/
  taps : ℕ
  failed : ℕ

namespace Daemon

/-- The engine `run_daemon` puts together once the first configuration is in force. -/
def started (env : StartInputs) (bytes : ByteArray) (cfg : ValidatedConfig) (plan : ReloadPlan) :
    Daemon where
  engine := ⟨(Limiter.new (cfg.refreshIntervalMs / 1000)).commitReload plan, cfg, 1⟩
  configWatch := 1
  configLoadedAt := formatUnixUtc env.nowUnix
  lastReloadAt := ""
  lastReloadOk := true
  lastReloadError := ""
  lastConfigBytes := bytes
  configWatcherHealthy := true
  configWatcherErrorsTotal := 0
  configWatcherLastError := ""
  rollbackHealth := {}
  startup := ⟨cfg.bridge, whitelistCapacity (prefixSet cfg)⟩
  tapCount := env.taps
  tapAttachFailuresTotal := env.failed
  collector := .new
  lastSnapshot := none
  lastTotals := Table.empty
  lastPolicer := Table.empty
  lastIpv6 := {}
  oversized := ({}, {})

/-- `run_daemon` up to its engine loop, or why the daemon refuses to start. -/
def start (p : Parsers) (path : String) (env : StartInputs) : Prog (Except AnyError Daemon) :=
  match env.read with
  | .error e => return .error ⟨[s!"cannot read config file {path}", e]⟩
  | .ok bytes =>
    match p.parseConfig bytes path with
    | .error e => return .error ⟨[e]⟩
    | .ok cfg => do
      match ← fillWhitelist (prefixSet cfg) with
      | .error e => return .error e
      | .ok () =>
        match (Limiter.new (cfg.refreshIntervalMs / 1000)).planReload cfg env.now [] with
        | .error e => return .error ⟨[e]⟩
        | .ok plan => return .ok (started env bytes cfg plan)

end Daemon

/-! ### Handlers amid packets -/

/-- A packet passes through a classifier. The other maps of the data path may hold
anything. -/
def Dataplane.Packet (host : ByteOrder) (d d' : Dataplane) : Prop :=
  ∃ (inserts : Inserts) (ctx : TcContext) (isTx : Bool) (now : ℕ) (counters : Counters)
    (oversized : Table UInt8 OversizedStats) (decides : DecidablePred (d.monitors host)),
    d' = (@EbpfMaps.handle host inserts ctx isTx now ⟨d, counters, oversized⟩ decides).1.limits

/-- The orders of a tick are ones its hash maps can be enumerated in. -/
structure TickInputs.Fits (reaches : RollingWindow → ℕ → Bool) (env : TickInputs) (d : Daemon) :
    Prop where
  ips : Visits env.ips (d.engine.limiter.Evaluated (d.polled env).2.totals)
  rows : Visits env.rows fun ip => ((d.polled env).1.totals ip).isSome

/-- The orders of a reload are ones its hash maps and sets can be enumerated in. -/
structure ReloadInputs.Fits (p : Parsers) (path : String) (env : ReloadInputs) (d : Daemon) :
    Prop where
  limited : Visits env.limited d.engine.limiter.Limited
  oldPrefixes : Visits env.oldPrefixes (· ∈ prefixSet d.engine.config)
  newPrefixes : ∀ bytes cfg, env.read = .ok bytes → p.parseConfig bytes path = .ok cfg →
    Visits env.newPrefixes (· ∈ prefixSet cfg)

/-- The engine and the limit maps. -/
structure Node where
  daemon : Daemon
  maps : Dataplane

namespace Node

section Steps

variable (p : Parsers) (path : String) (reaches : RollingWindow → ℕ → Bool) (host : ByteOrder)

/-- A collection tick amid packets. -/
def Collects (s s' : Node) : Prop :=
  ∃ env evs, env.Fits reaches s.daemon ∧
    RunsAmid (Dataplane.Packet host) MapOp.exec (s.daemon.collectTick reaches env) s.maps evs
      s'.daemon s'.maps

/-- What a node may do next. -/
inductive Step : Node → Node → Prop where
  | packet {s : Node} {maps : Dataplane} :
      s.maps.Packet host maps → Step s { s with maps }
  | collect {s s' : Node} : s.Collects reaches host s' → Step s s'
  /-- A reload that applies nothing. -/
  | ignore {s s' : Node} {env : ReloadInputs}
      {evs : List (Event MapOp AnyError Dataplane)} :
      env.Fits p path s.daemon →
      RunsAmid (Dataplane.Packet host) MapOp.exec (s.daemon.reloadFile p path env) s.maps evs
        (s'.daemon, false) s'.maps → Step s s'
  /-- A reload that applies the file and then collects. -/
  | reload {s mid s' : Node} {env : ReloadInputs}
      {evs : List (Event MapOp AnyError Dataplane)} :
      env.Fits p path s.daemon →
      RunsAmid (Dataplane.Packet host) MapOp.exec (s.daemon.reloadFile p path env) s.maps evs
        (mid.daemon, true) mid.maps → mid.Collects reaches host s' → Step s s'
  | watcherError {s : Node} (e : String) :
      Step s { s with daemon := s.daemon.recordWatcherError e }
  | rescan {s : Node} (scan : Option (ℕ × ℕ)) :
      Step s { s with daemon := s.daemon.rescanTaps scan }

/-- The nodes a daemon goes through that was started on empty maps. -/
inductive Reachable : Node → Prop where
  | start {env : StartInputs} {evs : List (Event MapOp AnyError Dataplane)} {s : Node} :
      Runs MapOp.exec (Daemon.start p path env) Dataplane.empty evs (.ok s.daemon) s.maps →
      Reachable s
  | step {s s' : Node} : Reachable s → Step p path reaches host s s' → Reachable s'

end Steps

end Node

end VmWatcher

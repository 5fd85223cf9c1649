import VmWatcher.Core.Proofs.Resolution
import VmWatcher.Daemon.Proofs.Metering
import VmWatcher.Daemon.Proofs.Blame
import VmWatcher.Daemon.Proofs.Sound

/-!
# The file in force

Between two handlers the engine holds what the file says that was applied last. As long as
no rollback step has failed the maps hold the same: who is policed, by which policy and
which addresses are counted at all can be read off the file and the states of the limiter.
-/

namespace VmWatcher

open OpProg ExceptRules

/-! ### Policies of a file -/

/-- The policy of a flow: what `resolve` makes of the range that contains its address and
of the override the range has for it. -/
def ValidatedConfig.Assigns (cfg : ValidatedConfig) (flow : FlowKey) (policy : DirPolicy) : Prop :=
  ∃ vr ∈ cfg.ranges, vr.inner.contains flow.1 = true ∧
    ∃ what eff, resolve vr.policy (vr.overrideFields flow.1) what = .ok eff ∧
      eff.dir flow.2 = some policy

/-- The index of an accepted configuration knows the policies of its ranges. -/
theorem ValidatedConfig.Accepted.assigns_iff {cfg : ValidatedConfig} (accepted : cfg.Accepted)
    {ranges : List PolicyRange} {overrides : Table UInt32 EffectivePolicy}
    (indexed : buildIndex cfg = .ok (ranges, overrides)) {flow : FlowKey} {policy : DirPolicy} :
    lookupDir ranges overrides flow = some policy ↔ cfg.Assigns flow policy := by
  have index := buildIndex_indexes indexed
  constructor
  · intro known
    by_cases inside : ∃ vr ∈ cfg.ranges, vr.inner.contains flow.1 = true
    · obtain ⟨vr, hvr, inside⟩ := inside
      obtain ⟨eff, resolved, same⟩ := index.lookup_inside accepted hvr inside ""
      exact ⟨vr, hvr, inside, "", eff, resolved, (same flow.2).symm.trans known⟩
    · have outside : ∀ vr ∈ cfg.ranges, ¬ vr.inner.contains flow.1 = true :=
        fun vr hvr hit => inside ⟨vr, hvr, hit⟩
      rw [index.lookup_outside accepted outside flow.2] at known
      cases known
  · intro assigned
    obtain ⟨vr, hvr, inside, what, eff, resolved, known⟩ := assigned
    obtain ⟨eff', resolved', same⟩ := index.lookup_inside accepted hvr inside what
    obtain rfl := Except.ok.inj (resolved.symm.trans resolved')
    exact (same flow.2).trans known

/-! ### Files that are read -/

theorem fromUTF8?_toByteArray (s : String) : String.fromUTF8? s.toByteArray = some s := by
  unfold String.fromUTF8?
  rw [dif_pos s.isValidUTF8]
  rfl

/-- Parsers that know the texts of these files. -/
def Parsers.ofFiles (files : List (String × Config)) : Parsers where
  utf8Error _ := "invalid utf-8 sequence"
  fromToml t :=
    match files.find? (·.1 = t) with
    | some (_, file) => .ok file
    | none => .error "expected an equals"
  parseUrl _ := .error ""

theorem Parsers.ofFiles_parseConfig {files : List (String × Config)} {text path : String}
    {file : Config} {cfg : ValidatedConfig} (known : files.find? (·.1 = text) = some (text, file))
    (h : file.parse (fun _ => .error "") = .ok cfg) :
    (ofFiles files).parseConfig text.toByteArray path = .ok cfg := by
  have knows : (ofFiles files).fromToml text = .ok file := by
    simp only [ofFiles, known]
  have parsed : (ofFiles files).parse text = .ok cfg := by
    rw [parse, knows, bind_eq_ok]
    exact ⟨file, rfl, h⟩
  rw [parseConfig, fromUTF8?_toByteArray]
  dsimp only
  rw [parsed]
  rfl

/-- Parsers that know the text of one file. -/
def Parsers.ofFile (text : String) (file : Config) : Parsers := ofFiles [(text, file)]

theorem Parsers.ofFile_parseConfig {text path : String} {file : Config} {cfg : ValidatedConfig}
    (h : file.parse (fun _ => .error "") = .ok cfg) :
    (ofFile text file).parseConfig text.toByteArray path = .ok cfg :=
  ofFiles_parseConfig (by simp) h

namespace Node

variable {p : Parsers} {path : String} {reaches : RollingWindow → ℕ → Bool} {host : ByteOrder}
variable {s s' : Node}

/-! ### Between two handlers -/

section Sound

variable (h : s.Sound p path reaches)

include h

theorem Sound.ok : s.daemon.engine.limiter.Ok := by
  obtain ⟨pending, reached⟩ := h.limiter
  exact reached.ok.1

/-- The limiter has the policies of the file. -/
theorem Sound.dirPolicy_iff {flow : FlowKey} {policy : DirPolicy} :
    s.daemon.engine.limiter.dirPolicy flow = some policy ↔
      s.daemon.engine.config.Assigns flow policy :=
  h.accepted.assigns_iff h.indexed

theorem Sound.bounded {flow : FlowKey} {policy : DirPolicy}
    (assigned : s.daemon.engine.config.Assigns flow policy) : policy.Bounded := by
  obtain ⟨pending, reached⟩ := h.limiter
  exact reached.bounded flow policy (h.dirPolicy_iff.mpr assigned)

/-- A LIMITED flow is limited by the policy the file assigns it. -/
theorem Sound.enforced_iff {flow : FlowKey} {policy : DirPolicy} :
    s.daemon.engine.limiter.enforced flow = some policy ↔
      s.daemon.engine.limiter.Limited flow ∧ s.daemon.engine.config.Assigns flow policy := by
  constructor
  · intro enforced
    have limited := (h.ok.limited_iff flow).mpr (by rw [enforced]; rfl)
    obtain ⟨state, hstate, phase⟩ := limited
    obtain ⟨policy', known, -, enforced'⟩ := (h.ok flow).enforced_limited hstate phase
    obtain rfl := Option.some.inj (enforced.symm.trans enforced')
    exact ⟨⟨state, hstate, phase⟩, h.dirPolicy_iff.mp known⟩
  · intro both
    obtain ⟨⟨state, hstate, phase⟩, assigned⟩ := both
    obtain ⟨policy', known, -, enforced⟩ := (h.ok flow).enforced_limited hstate phase
    obtain rfl := Option.some.inj ((h.dirPolicy_iff.mpr assigned).symm.trans known)
    exact enforced

/-- An armed flow is LIMITED, whatever failed. -/
theorem Sound.armed_limited {flow : FlowKey} {entry : LimitPolicy}
    (armed : s.maps.policies (limitKey flow) = some entry) :
    s.daemon.engine.limiter.Limited flow :=
  (h.ok.limited_iff flow).mpr ((h.agrees flow).limited entry armed)

variable (clean : s.daemon.rollbackHealth.degraded = false)

include clean

/-- Exactly the LIMITED flows are armed, each with the policy of the file. -/
theorem Sound.armed_iff {flow : FlowKey} {entry : LimitPolicy} :
    s.maps.policies (limitKey flow) = some entry ↔
      ∃ policy, s.daemon.engine.limiter.Limited flow ∧
        s.daemon.engine.config.Assigns flow policy ∧ entry = policy.installed := by
  have settled := congrArg FlowShape.policy ((h.agrees flow).settled (by rw [clean]; rfl))
  have entries : s.maps.policies (limitKey flow) =
      (s.daemon.engine.limiter.enforced flow).map DirPolicy.installed := settled
  rw [entries, Option.map_eq_some_iff]
  constructor
  · intro armed
    obtain ⟨policy, enforced, rfl⟩ := armed
    obtain ⟨limited, assigned⟩ := h.enforced_iff.mp enforced
    exact ⟨policy, limited, assigned, rfl⟩
  · intro armed
    obtain ⟨policy, limited, assigned, rfl⟩ := armed
    exact ⟨policy, h.enforced_iff.mpr ⟨limited, assigned⟩, rfl⟩

/-- The state artifacts are those of the armed policies. -/
theorem Sound.artifact_iff {flow : FlowKey} {a : Artifact} :
    s.maps.hasArtifact (limitKey flow) a = true ↔
      ∃ entry, s.maps.policies (limitKey flow) = some entry ∧ artifactOf entry.algorithm = a := by
  have settled := (h.agrees flow).settled (by rw [clean]; rfl)
  have entries : s.maps.policies (limitKey flow) =
      (s.daemon.engine.limiter.enforced flow).map DirPolicy.installed :=
    congrArg FlowShape.policy settled
  have artifacts : s.maps.hasArtifact (limitKey flow) a =
      ((s.daemon.engine.limiter.enforced flow).map DirPolicy.installed).any fun p =>
        artifactOf p.algorithm = a := congrArg (fun f => f.artifacts a) settled
  rw [artifacts, entries, Option.any_eq_true]
  simp

end Sound

/-! ### A daemon on one address -/

open Limiter

/-- A tick whose actions are all carried out. -/
theorem Reachable.collect (h : s.Reachable p path reaches host) (env : TickInputs) (l : Limiter)
    (c : Collector) {cfg : ValidatedConfig} {generation : ℕ}
    (engine : s.daemon.engine = ⟨l, cfg, generation⟩) (collector : s.daemon.collector = c)
    (ips : Visits env.ips (l.Evaluated (c.poll env.inputs env.polledAt).2.totals))
    (rows : Visits env.rows fun ip => ((c.poll env.inputs env.polledAt).1.totals ip).isSome)
    {limiter : Limiter} {actions : List LimitAction}
    (ticked : l.tick reaches env.now (c.poll env.inputs env.polledAt).2.totals env.ips =
      (limiter, actions))
    {evs : List (Event MapOp AnyError Dataplane)} {maps : Dataplane}
    (run : Runs MapOp.exec (applyTickActions limiter actions) s.maps evs (limiter, []) maps) :
    (Node.mk (s.daemon.afterTick env limiter []) maps).Reachable p path reaches host := by
  have decided : s.daemon.ticked reaches env = (limiter, actions) := by
    rw [Daemon.ticked, Daemon.polled, engine, collector]
    exact ticked
  refine h.step (.collect ⟨env, evs, ⟨?_, ?_⟩, (Daemon.collectTick_runs ?_).amid⟩)
  · rw [Daemon.polled, engine, collector]
    exact ips
  · rw [Daemon.polled, collector]
    exact rows
  · rw [decided]
    exact run

/-- A second in which the counter of one address is read. -/
def secondOf (second rxBytes : ℕ) (ips : List UInt32) : TickInputs where
  inputs := ⟨[(⟨3, 1⟩, { rxBytes })], [], [], false⟩
  polledAt := second
  rows := ips
  now := second
  ips := ips
  oversized := []

/-- The polls of three seconds: a baseline, one byte, and one second over the threshold. -/
def baselinePoll : Collector × PollResult := Collector.new.poll (secondOf 0 1 []).inputs 0

def countedPoll : Collector × PollResult := baselinePoll.1.poll (secondOf 1 2 [1]).inputs 1

def exceededPoll : Collector × PollResult := countedPoll.1.poll (secondOf 2 125002 [1]).inputs 2

/-- What the limiter makes of them: the flow is LIMITED from the third on. -/
def baselineTick : Limiter × List LimitAction :=
  ((new 1).commitReload (indexPlan ⟨some receiveOnly, none⟩)).tick RollingWindow.reachesExactly 0
    baselinePoll.2.totals []

def countedTick : Limiter × List LimitAction :=
  baselineTick.1.tick RollingWindow.reachesExactly 1 countedPoll.2.totals [1]

def exceededTick : Limiter × List LimitAction :=
  countedTick.1.tick RollingWindow.reachesExactly 2 exceededPoll.2.totals [1]

theorem exceededTick_actions : exceededTick.2 = [.installOf (1, dirRx) receiveOnly] := by rfl

theorem exceededTick_limited : exceededTick.1.Limited (1, dirRx) :=
  ⟨⟨.limited, 2, 3, some receiveOnly⟩, by rfl, rfl⟩

theorem baselinePoll_totals (ip : UInt32) : baselinePoll.1.totals ip = none := by
  by_cases own : ip = 1
  · rw [own]
    rfl
  · exact Collector.new.poll_other own _ 0

/-- The poll of the address alone has the address alone. -/
theorem polled_visits {c : Collector} {second rxBytes : ℕ}
    (counted : ((c.poll (secondOf second rxBytes [1]).inputs second).1.totals 1).isSome) :
    Visits [1] fun ip =>
      ((c.poll (secondOf second rxBytes [1]).inputs second).1.totals ip).isSome := by
  refine ⟨List.nodup_singleton 1, fun ip => ?_⟩
  by_cases own : ip = 1
  · simp [own, counted]
  · have other : ip ≠ (⟨3, 1⟩ : TrafficKey).ipv4 := own
    simp [own, secondOf, c.poll_other other { rxBytes } second]

/-- So the limiter, which knows of no other, evaluates it alone. -/
theorem evaluated_visits {c : Collector} {l : Limiter} {second rxBytes : ℕ}
    (known : l.KnowsOnly (1, dirRx))
    (counted : ((c.poll (secondOf second rxBytes [1]).inputs second).1.totals 1).isSome) :
    Visits [1] (l.Evaluated (c.poll (secondOf second rxBytes [1]).inputs second).2.totals) :=
  known.among.visits (List.nodup_singleton 1) (by simp) fun ip =>
    (Bool.eq_iff_iff.mp Option.isSome_map).trans ((polled_visits counted).mem_iff ip).symm

theorem exceededTick_knowsOnly : exceededTick.1.KnowsOnly (1, dirRx) := by
  have known₁ : baselineTick.1.KnowsOnly (1, dirRx) :=
    (indexPlan_knowsOnly receiveOnly).tick 0 _ List.nodup_nil
  have known₂ : countedTick.1.KnowsOnly (1, dirRx) := known₁.tick 1 _ (List.nodup_singleton 1)
  exact known₂.tick 2 _ (List.nodup_singleton 1)

/-- A daemon on one address, whose flow is LIMITED. -/
theorem limited_reachable_of {bytes : ByteArray}
    (parsed : p.parseConfig bytes path = .ok (oneAddress receiveLimit)) (host : ByteOrder) :
    ∃ s : Node, s.Reachable p path RollingWindow.reachesExactly host ∧
      s.daemon.engine = ⟨exceededTick.1, oneAddress receiveLimit, 1⟩ ∧
      s.daemon.lastConfigBytes = bytes ∧ s.daemon.rollbackHealth = {} ∧
      s.daemon.collector = exceededPoll.1 ∧ s.daemon.lastSnapshot.isSome ∧
      s.maps.artifacts (limitKey (1, dirRx)) = {} ∧ s.maps.policerStats = Table.empty ∧
      s.daemon.startup = ⟨"br0", whitelistCapacity (prefixSet (oneAddress receiveLimit))⟩ := by
  have planned : (new 1).planReload (oneAddress receiveLimit) 0 [] =
      .ok (indexPlan ⟨some receiveOnly, none⟩) := rfl
  let env : StartInputs := ⟨.ok bytes, 0, 0, 1, 0⟩
  have starts : Daemon.Started p path env bytes (oneAddress receiveLimit)
      (indexPlan ⟨some receiveOnly, none⟩) := ⟨rfl, parsed, planned⟩
  obtain ⟨_, maps, start⟩ := Daemon.start_runs starts Dataplane.empty
  obtain ⟨_, _, _, -, -, fill⟩ := Daemon.start_inv start
  obtain ⟨others, -⟩ := Daemon.fillWhitelist_inv fill
  have started : Reachable _ _ RollingWindow.reachesExactly host ⟨_, maps⟩ := .start start
  -- the baseline
  have unseen : Visits [] (((new 1).commitReload (indexPlan ⟨some receiveOnly, none⟩)).Evaluated
      baselinePoll.2.totals) := by
    refine ⟨List.nodup_nil, fun ip => ⟨fun h => absurd h List.not_mem_nil, fun h => ?_⟩⟩
    have absent : baselinePoll.2.totals ip = none :=
      congrArg (Option.map IpStats.ipTotals) (baselinePoll_totals ip)
    rcases h with h | ⟨dir, h | ⟨state, h, -⟩⟩
    · simp [absent] at h
    · cases h
    · cases h
  have noRows : Visits [] fun ip => (baselinePoll.1.totals ip).isSome :=
    ⟨List.nodup_nil, fun ip => by simp [baselinePoll_totals ip]⟩
  have known₁ : baselineTick.1.KnowsOnly (1, dirRx) :=
    (indexPlan_knowsOnly receiveOnly).tick 0 _ List.nodup_nil
  have first := started.collect (secondOf 0 1 []) _ .new rfl rfl unseen noRows
    (Prod.eta baselineTick).symm (.done _ _)
  -- the first byte
  have counted₁ : (countedPoll.1.totals 1).isSome := rfl
  have known₂ : countedTick.1.KnowsOnly (1, dirRx) := known₁.tick 1 _ (List.nodup_singleton 1)
  have second := first.collect (secondOf 1 2 [1]) baselineTick.1 baselinePoll.1 rfl rfl
    (evaluated_visits known₁ counted₁) (polled_visits counted₁) (Prod.eta countedTick).symm
    (.done _ _)
  -- over the threshold
  have counted₂ : (exceededPoll.1.totals 1).isSome := rfl
  have limits := runs_exec MapOp.exec
    (applyTickActions exceededTick.1 [.installOf (1, dirRx) receiveOnly]) (fun _ => none) maps
  have clean : (exec MapOp.exec (applyTickActions exceededTick.1 [.installOf (1, dirRx) receiveOnly])
      (fun _ => none) maps).2.1 = (exceededTick.1, []) := by
    rw [others]
    rfl
  rw [clean] at limits
  have third := second.collect (secondOf 2 125002 [1]) countedTick.1 countedPoll.1 rfl rfl
    (evaluated_visits known₂ counted₂) (polled_visits counted₂)
    (Prod.ext rfl exceededTick_actions) limits
  have fresh : ((exec MapOp.exec
      (applyTickActions exceededTick.1 [.installOf (1, dirRx) receiveOnly])
      (fun _ => none) maps).2.2.artifacts (limitKey (1, dirRx))) = {} := by
    rw [others]
    rfl
  have uncounted : (exec MapOp.exec
      (applyTickActions exceededTick.1 [.installOf (1, dirRx) receiveOnly])
      (fun _ => none) maps).2.2.policerStats = Table.empty := by
    rw [others]
    rfl
  exact ⟨_, third, rfl, rfl, rfl, rfl, rfl, fresh, uncounted, rfl⟩

theorem oneAddressFile_parse : (oneAddressFile (some receiveLimitEntry)).parse (fun _ => .error "") =
    .ok (oneAddress receiveLimit) := by rfl

theorem limited_reachable (text path : String) (host : ByteOrder) : ∃ s : Node,
    s.Reachable (.ofFile text (oneAddressFile (some receiveLimitEntry))) path
      RollingWindow.reachesExactly host ∧
    s.daemon.engine = ⟨exceededTick.1, oneAddress receiveLimit, 1⟩ ∧
    s.daemon.lastConfigBytes = text.toByteArray ∧ s.daemon.rollbackHealth = {} ∧
    s.daemon.collector = exceededPoll.1 ∧ s.daemon.lastSnapshot.isSome ∧
    s.maps.artifacts (limitKey (1, dirRx)) = {} ∧ s.maps.policerStats = Table.empty ∧
    s.daemon.startup = ⟨"br0", whitelistCapacity (prefixSet (oneAddress receiveLimit))⟩ :=
  limited_reachable_of (Parsers.ofFile_parseConfig oneAddressFile_parse) host

/-- The text of that file. -/
def oneAddressText : String :=
  "[network]\nbridge = \"br0\"\n\n[[ip_ranges]]\nname = \"vms\"\nrange = \"0.0.0.1-0.0.0.1\"\n\n" ++
  "[ip_ranges.policy]\nrx_threshold = \"1Mbps\"\nrx_limit = \"1Mbps\"\nwindow = \"1s\"\n" ++
  "trigger_ratio = \"100%\"\nlimit_duration = \"1s\"\nburst = \"100KB\"\n"

/-! ### The maps follow the file -/

/-- The maps hold what the file and the states of the limiter ask for, and nothing else. -/
structure MapsFollow (host : ByteOrder) (s : Node) : Prop where
  /-- Exactly the LIMITED flows are armed, each with the policy the file assigns it. -/
  armed : ∀ flow entry, s.maps.policies (limitKey flow) = some entry ↔
    ∃ policy, s.daemon.engine.limiter.Limited flow ∧ s.daemon.engine.config.Assigns flow policy ∧
      entry = policy.installed
  limited : ∀ flow, s.daemon.engine.limiter.Limited flow → (s.maps.policies (limitKey flow)).isSome
  /-- The state maps have the artifacts of the armed flows. -/
  artifacts : ∀ flow a, s.maps.hasArtifact (limitKey flow) a = true ↔
    ∃ entry, s.maps.policies (limitKey flow) = some entry ∧ artifactOf entry.algorithm = a
  whitelisted : ∀ ipv4, s.maps.monitors host ipv4 ↔ s.daemon.engine.config.covers ipv4

theorem Sound.mapsFollow (h : s.Sound p path reaches)
    (clean : s.daemon.rollbackHealth.degraded = false) : s.MapsFollow host where
  armed _ _ := h.armed_iff clean
  limited flow limited := by
    obtain ⟨policy, enforced⟩ := Option.isSome_iff_exists.mp ((h.ok.limited_iff flow).mp limited)
    have armed := (h.armed_iff clean).mpr ⟨policy, limited, (h.enforced_iff.mp enforced).2, rfl⟩
    exact Option.isSome_of_eq_some armed
  artifacts _ _ := h.artifact_iff clean
  whitelisted := Dataplane.monitors_iff_covers host (h.filled clean)

/-- Between two handlers, whatever packets, ticks, reloads, errors and scans came and whatever
map operations failed: the visible configuration is what the applied file is parsed to, no flow
is armed that is not LIMITED, and unless the status says that the dataplane is degraded the maps
are exactly what the file and the states of the limiter ask for. -/
theorem maps_follow_file (h : s.Reachable p path reaches host) :
    p.parseConfig s.daemon.lastConfigBytes path = .ok s.daemon.engine.config ∧
      s.daemon.configWatch = s.daemon.engine.generation ∧
      (∀ flow entry, s.maps.policies (limitKey flow) = some entry →
        s.daemon.engine.limiter.Limited flow) ∧
      (s.daemon.rollbackHealth.degraded = true ↔ 0 < s.daemon.rollbackHealth.failuresTotal) ∧
      (s.daemon.rollbackHealth.degraded = false → s.MapsFollow host) := by
  have sound := h.sound
  exact ⟨sound.parsed, sound.told, fun flow entry => sound.armed_limited, sound.counts,
    sound.mapsFollow⟩

theorem maps_follow_file_limited : ∃ s : Node,
    s.Reachable (.ofFile oneAddressText (oneAddressFile (some receiveLimitEntry))) "config.toml"
      RollingWindow.reachesExactly .little ∧
    (s.maps.policies (limitKey (1, dirRx))).isSome ∧
    ∀ flow, flow ≠ (1, dirRx) → s.maps.policies (limitKey flow) = none := by
  obtain ⟨s, reached, engine, -, health, -⟩ := limited_reachable oneAddressText "config.toml" .little
  obtain ⟨-, -, armed, -, follows⟩ := maps_follow_file reached
  have limited := (follows (by rw [health])).limited
  rw [engine] at armed limited
  refine ⟨s, reached, limited _ exceededTick_limited, fun flow other => ?_⟩
  by_contra present
  obtain ⟨entry, hentry⟩ := Option.ne_none_iff_exists'.mp present
  obtain ⟨state, hstate, -⟩ := armed flow entry hentry
  rw [(exceededTick_knowsOnly flow other).2.2] at hstate
  cases hstate

/-! ### Reloads -/

/-- A transaction of a reload that was taken back without a failed step leaves the shape of
the maps as it was. -/
theorem Sound.restored (h : s.Sound p path reaches) {env : ReloadInputs}
    (fits : env.Fits p path s.daemon) {plan : ReloadPlan} {e : AnyError}
    {report : RollbackReport} {evs : List (Event MapOp AnyError Shape)} {σ' : Shape}
    (run : Runs Shape.exec
      (transact (applyReloadSteps plan.actions env.oldPrefixes env.newPrefixes)) s.maps.shape evs
      (.error (e, report)) σ') (clean : s.daemon.rollbackHealth.degraded = false)
    (consistent : report.dataplaneConsistent = true) : σ' = s.maps.shape := by
  have settled := h.agrees.settled (by rw [clean]; rfl)
  have listed : ∀ c, s.maps.shape.whitelisted c = true ↔ c ∈ env.oldPrefixes :=
    fun c => (h.filled clean c).trans (fits.oldPrefixes.mem_iff c).symm
  apply Shape.ext
  · exact (reloadSteps_outcome run).restored settled consistent rfl
  · funext c
    rw [Bool.eq_iff_iff, listed]
    exact (transact_swaps settled listed run).rejected consistent rfl c

/-- A reload has put the whole file in force: configuration, limiter and maps. -/
structure Adopts (p : Parsers) (path : String) (host : ByteOrder) (env : ReloadInputs)
    (s s' : Node) (bytes : ByteArray) (plan : ReloadPlan) : Prop where
  read : env.read = .ok bytes
  differs : bytes ≠ s.daemon.lastConfigBytes
  parsed : p.parseConfig bytes path = .ok s'.daemon.engine.config
  planned : s.daemon.engine.limiter.planReload s'.daemon.engine.config env.now env.limited = .ok plan
  limiter : s'.daemon.engine.limiter = s.daemon.engine.limiter.commitReload plan
  generation : s'.daemon.engine.generation = s.daemon.engine.generation + 1
  lastConfigBytes : s'.daemon.lastConfigBytes = bytes
  lastReloadOk : s'.daemon.lastReloadOk = true
  lastReloadError : s'.daemon.lastReloadError = ""
  health : s'.daemon.rollbackHealth = s.daemon.rollbackHealth
  maps : s'.daemon.rollbackHealth.degraded = false → s'.MapsFollow host

/-- Why a reload has changed nothing: it ended before it touched a map, or its transaction was
taken back for the error of an operation. -/
inductive Spares (p : Parsers) (path : String) (env : ReloadInputs) (s s' : Node) :
    Bool → String → Prop where
  | ends {ok : Bool} {error : String} :
      Daemon.Ends p path env s.daemon ok error → Spares p path env s s' ok error
  | takenBack {bytes : ByteArray} {cfg : ValidatedConfig} {plan : ReloadPlan} {e : AnyError}
      {report : RollbackReport} {evs : List (Event MapOp AnyError Shape)} :
      Daemon.Offers p path env s.daemon bytes cfg → Daemon.Plans env s.daemon cfg plan →
      Runs Shape.exec (transact (applyReloadSteps plan.actions env.oldPrefixes env.newPrefixes))
        s.maps.shape evs (.error (e, report)) s'.maps.shape → CausedIn evs e →
      Spares p path env s s' false e.display

/-- A reload has left everything as it was, and the status shows why. -/
structure Keeps (p : Parsers) (path : String) (env : ReloadInputs) (s s' : Node) : Prop where
  engine : s'.daemon.engine = s.daemon.engine
  collector : s'.daemon.collector = s.daemon.collector
  lastSnapshot : s'.daemon.lastSnapshot = s.daemon.lastSnapshot
  lastConfigBytes : s'.daemon.lastConfigBytes = s.daemon.lastConfigBytes
  configLoadedAt : s'.daemon.configLoadedAt = s.daemon.configLoadedAt
  reason : Spares p path env s s' s'.daemon.lastReloadOk s'.daemon.lastReloadError
  maps : s'.daemon.rollbackHealth.degraded = false → s'.maps.shape = s.maps.shape

/-- The same file without a policy. -/
def noPolicyText : String :=
  "[network]\nbridge = \"br0\"\n\n[[ip_ranges]]\nname = \"vms\"\nrange = \"0.0.0.1-0.0.0.1\"\n"

/-- Both files. -/
def twoFiles : Parsers :=
  .ofFiles [(oneAddressText, oneAddressFile (some receiveLimitEntry)),
    (noPolicyText, oneAddressFile none)]

theorem noPolicyText_ne : oneAddressText ≠ noPolicyText := by decide +kernel

theorem noPolicyText_bytes_ne : noPolicyText.toByteArray ≠ oneAddressText.toByteArray :=
  fun same => noPolicyText_ne (String.toByteArray_inj.mp same).symm

/-- A daemon started on the first file may reload the second one. -/
theorem noPolicy_checked :
    checkReload ⟨"br0", whitelistCapacity (prefixSet (oneAddress receiveLimit))⟩
      (oneAddress receiveLimit) (oneAddress {}) [⟨32, 1⟩] [⟨32, 1⟩] = .ok () := by
  decide +kernel

theorem twoFiles_parseConfig (path : String) :
    twoFiles.parseConfig oneAddressText.toByteArray path = .ok (oneAddress receiveLimit) ∧
      twoFiles.parseConfig noPolicyText.toByteArray path = .ok (oneAddress {}) := by
  have parsed' : (oneAddressFile none).parse (fun _ => .error "") = .ok (oneAddress {}) := rfl
  constructor
  · exact Parsers.ofFiles_parseConfig (List.find?_cons_of_pos (decide_eq_true rfl))
      oneAddressFile_parse
  · refine Parsers.ofFiles_parseConfig ?_ parsed'
    rw [List.find?_cons_of_neg (by simpa using noPolicyText_ne)]
    exact List.find?_cons_of_pos (decide_eq_true rfl)

end Node

end VmWatcher

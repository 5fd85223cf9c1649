import VmWatcher.Daemon.Proofs.Frame
import VmWatcher.Daemon.Runs

/-!
# What a handler can do

One inversion lemma for each handler of the engine, in terms of the transaction it runs.
They hold on any store, so on the maps as well as on their shape.
-/

namespace VmWatcher

open OpProg

variable {S : Type} {eff : (op : MapOp) → S → op.Res × S} {s s' : S}
variable {evs : List (Event MapOp AnyError S)}

namespace Daemon

variable {d d' : Daemon} {p : Parsers} {path : String} {reaches : RollingWindow → ℕ → Bool}

/-! ### Collection ticks -/

/-- The engine once the actions of a tick were carried out. -/
def afterTick (env : TickInputs) (limiter : Limiter) (failures : List TickActionFailure)
    (d : Daemon) : Daemon :=
  { d with
    engine := { d.engine with limiter }
    collector := (d.polled env).1
    rollbackHealth := surfaceFailures d.rollbackHealth failures
    lastTotals := (d.polled env).2.totals
    lastIpv6 := (d.polled env).2.ipv6
    lastPolicer := (d.polled env).2.policer
    lastSnapshot := some (.ofTotals d.engine.config.ipRanges d.engine.config.showIdleIps
      (d.polled env).1.totals env.rows)
    oversized := readOversized env.oversized }

theorem collectTick_inv {env : TickInputs}
    (run : Runs eff (d.collectTick reaches env) s evs d' s') :
    ∃ limiter failures,
      Runs eff (applyTickActions (d.ticked reaches env).1 (d.ticked reaches env).2) s evs
        (limiter, failures) s' ∧
      d' = d.afterTick env limiter failures := by
  obtain ⟨evs₁, ⟨limiter, failures⟩, s₁, evs₂, first, last, rfl⟩ := run.bind_inv
  cases last
  exact ⟨limiter, failures, by rwa [List.append_nil], rfl⟩

theorem collectTick_runs {env : TickInputs} {limiter : Limiter}
    {failures : List TickActionFailure}
    (run : Runs eff (applyTickActions (d.ticked reaches env).1 (d.ticked reaches env).2) s evs
      (limiter, failures) s') :
    Runs eff (d.collectTick reaches env) s evs (d.afterTick env limiter failures) s' := by
  rw [← List.append_nil evs]
  exact run.bind (.done _ _)

/-! ### Reloads -/

/-- Carry out a plan, or take it back. -/
theorem applyAndCommit_inv {engine engine' : Engine} {oldPrefixes newPrefixes : List Cidr}
    {plan : ReloadPlan} {cfg : ValidatedConfig} {r : Except ReloadApplyError Unit}
    (run : Runs eff (applyAndCommit engine oldPrefixes newPrefixes plan cfg) s evs (engine', r)
      s') :
    ∃ r₁, Runs eff (transact (applyReloadSteps plan.actions oldPrefixes newPrefixes)) s evs r₁ s' ∧
      ((r₁ = .ok () ∧ r = .ok () ∧
          engine' = ⟨engine.limiter.commitReload plan, cfg, engine.generation + 1⟩) ∨
        ∃ e report, r₁ = .error (e, report) ∧ r = .error ⟨e, report⟩ ∧ engine' = engine) := by
  obtain ⟨evs₁, r₁, s₁, evs₂, first, last, rfl⟩ := run.bind_inv
  cases r₁ with
  | ok _ =>
    cases last
    exact ⟨_, by rwa [List.append_nil], .inl ⟨rfl, rfl, rfl⟩⟩
  | error e =>
    cases last
    exact ⟨_, by rwa [List.append_nil], .inr ⟨e.1, e.2, rfl, rfl, rfl⟩⟩

/-- Why a configuration is refused before a map is touched. -/
inductive Refuses (env : ReloadInputs) (d : Daemon) (cfg : ValidatedConfig) (e : String) :
    Prop where
  | checked :
      checkReload d.startup d.engine.config cfg env.oldPrefixes env.newPrefixes = .error e →
      Refuses env d cfg e
  | planned : d.engine.limiter.planReload cfg env.now env.limited = .error e → Refuses env d cfg e

/-- The configuration passes all checks, and its plan is made. -/
structure Plans (env : ReloadInputs) (d : Daemon) (cfg : ValidatedConfig) (plan : ReloadPlan) :
    Prop where
  checked : checkReload d.startup d.engine.config cfg env.oldPrefixes env.newPrefixes = .ok ()
  planned : d.engine.limiter.planReload cfg env.now env.limited = .ok plan

/-- The engine once a plan was carried out. -/
def committed (cfg : ValidatedConfig) (plan : ReloadPlan) (d : Daemon) : Daemon :=
  { d with
    engine := ⟨d.engine.limiter.commitReload plan, cfg, d.engine.generation + 1⟩
    collector := d.collector.pruneIps cfg.ipRanges }

section

variable (cfg : ValidatedConfig) (plan : ReloadPlan) (d : Daemon)

@[simp] theorem committed_engine : (d.committed cfg plan).engine =
    ⟨d.engine.limiter.commitReload plan, cfg, d.engine.generation + 1⟩ := rfl

@[simp] theorem committed_rollbackHealth :
    (d.committed cfg plan).rollbackHealth = d.rollbackHealth := rfl

@[simp] theorem committed_lastReloadOk :
    (d.committed cfg plan).lastReloadOk = d.lastReloadOk := rfl

@[simp] theorem committed_lastReloadError :
    (d.committed cfg plan).lastReloadError = d.lastReloadError := rfl

@[simp] theorem committed_configWatcherHealthy :
    (d.committed cfg plan).configWatcherHealthy = d.configWatcherHealthy := rfl

@[simp] theorem committed_startup : (d.committed cfg plan).startup = d.startup := rfl

end

theorem applyConfig_inv {env : ReloadInputs} {cfg : ValidatedConfig} {r : Except AnyError Unit}
    (run : Runs eff (d.applyConfig env cfg) s evs (d', r) s') :
    (∃ e, Refuses env d cfg e ∧ r = .error ⟨[e]⟩ ∧ d' = d ∧ evs = [] ∧ s' = s) ∨
    ∃ plan r₁, Plans env d cfg plan ∧
      Runs eff (transact (applyReloadSteps plan.actions env.oldPrefixes env.newPrefixes)) s evs r₁
        s' ∧
      ((r₁ = .ok () ∧ r = .ok () ∧ d' = d.committed cfg plan) ∨
        ∃ e report, r₁ = .error (e, report) ∧ r = .error e ∧
          d' = { d with rollbackHealth := d.rollbackHealth.record report }) := by
  unfold applyConfig at run
  cases hcheck : checkReload d.startup d.engine.config cfg env.oldPrefixes env.newPrefixes with
  | error e =>
    simp only [hcheck] at run
    cases run
    exact .inl ⟨e, .checked hcheck, rfl, rfl, rfl, rfl⟩
  | ok _ =>
    simp only [hcheck] at run
    cases hplan : d.engine.limiter.planReload cfg env.now env.limited with
    | error e =>
      simp only [hplan] at run
      cases run
      exact .inl ⟨e, .planned hplan, rfl, rfl, rfl, rfl⟩
    | ok plan =>
      simp only [hplan] at run
      obtain ⟨evs₁, ⟨engine, r⟩, s₁, evs₂, commit, last, rfl⟩ := run.bind_inv
      obtain ⟨r₁, transaction, outcome⟩ := applyAndCommit_inv commit
      have plans : Plans env d cfg plan := ⟨hcheck, hplan⟩
      rcases outcome with ⟨rfl, rfl, rfl⟩ | ⟨e, report, rfl, rfl, rfl⟩
      · cases last
        rw [List.append_nil]
        exact .inr ⟨plan, _, plans, transaction, .inl ⟨rfl, rfl, rfl⟩⟩
      · cases last
        rw [List.append_nil]
        exact .inr ⟨plan, _, plans, transaction, .inr ⟨e, report, rfl, rfl, rfl⟩⟩

/-- The engine after a reload that was only noted. -/
def noted (env : ReloadInputs) (ok : Bool) (error : String) (d : Daemon) : Daemon :=
  { d with lastReloadAt := formatUnixUtc env.nowUnix, lastReloadOk := ok, lastReloadError := error }

section

variable (env : ReloadInputs) (ok : Bool) (error : String) (d : Daemon)

@[simp] theorem noted_engine : (d.noted env ok error).engine = d.engine := by rw [noted]

@[simp] theorem noted_configWatch : (d.noted env ok error).configWatch = d.configWatch := by rw [noted]

@[simp] theorem noted_lastConfigBytes :
    (d.noted env ok error).lastConfigBytes = d.lastConfigBytes := by rw [noted]

@[simp] theorem noted_rollbackHealth :
    (d.noted env ok error).rollbackHealth = d.rollbackHealth := by rw [noted]

@[simp] theorem noted_collector : (d.noted env ok error).collector = d.collector := by rw [noted]

@[simp] theorem noted_lastSnapshot : (d.noted env ok error).lastSnapshot = d.lastSnapshot := by
  rw [noted]

@[simp] theorem noted_configLoadedAt :
    (d.noted env ok error).configLoadedAt = d.configLoadedAt := by rw [noted]

@[simp] theorem noted_lastReloadOk : (d.noted env ok error).lastReloadOk = ok := by rw [noted]

@[simp] theorem noted_lastReloadError : (d.noted env ok error).lastReloadError = error := by
  rw [noted]

@[simp] theorem noted_configWatcherHealthy :
    (d.noted env ok error).configWatcherHealthy = d.configWatcherHealthy := by rw [noted]

@[simp] theorem noted_startup : (d.noted env ok error).startup = d.startup := by rw [noted]

end

/-- The engine once a file was applied. -/
def applied (env : ReloadInputs) (bytes : ByteArray) (cfg : ValidatedConfig) (plan : ReloadPlan)
    (d : Daemon) : Daemon :=
  { (d.noted env true "").committed cfg plan with
    configWatch := d.engine.generation + 1
    configLoadedAt := formatUnixUtc env.nowUnix
    lastConfigBytes := bytes }

section

variable (env : ReloadInputs) (bytes : ByteArray) (cfg : ValidatedConfig) (plan : ReloadPlan)
variable (d : Daemon)

@[simp] theorem applied_engine : (d.applied env bytes cfg plan).engine =
    ⟨d.engine.limiter.commitReload plan, cfg, d.engine.generation + 1⟩ := by
  rw [applied, committed_engine, noted_engine]

@[simp] theorem applied_configWatch :
    (d.applied env bytes cfg plan).configWatch = d.engine.generation + 1 := by rw [applied]

@[simp] theorem applied_lastConfigBytes :
    (d.applied env bytes cfg plan).lastConfigBytes = bytes := by rw [applied]

@[simp] theorem applied_rollbackHealth :
    (d.applied env bytes cfg plan).rollbackHealth = d.rollbackHealth := by
  rw [applied, committed_rollbackHealth, noted_rollbackHealth]

@[simp] theorem applied_lastReloadOk :
    (d.applied env bytes cfg plan).lastReloadOk = true := by
  rw [applied, committed_lastReloadOk, noted_lastReloadOk]

@[simp] theorem applied_lastReloadError :
    (d.applied env bytes cfg plan).lastReloadError = "" := by
  rw [applied, committed_lastReloadError, noted_lastReloadError]

@[simp] theorem applied_configWatcherHealthy :
    (d.applied env bytes cfg plan).configWatcherHealthy = d.configWatcherHealthy := by
  rw [applied, committed_configWatcherHealthy, noted_configWatcherHealthy]

@[simp] theorem applied_startup : (d.applied env bytes cfg plan).startup = d.startup := by
  rw [applied, committed_startup, noted_startup]

end

/-- The file was read, differs from the one in force and is a configuration. -/
structure Offers (p : Parsers) (path : String) (env : ReloadInputs) (d : Daemon)
    (bytes : ByteArray) (cfg : ValidatedConfig) : Prop where
  read : env.read = .ok bytes
  differs : bytes ≠ d.lastConfigBytes
  parsed : p.parseConfig bytes path = .ok cfg

/-- Why a reload ends before it touches a map. -/
inductive Ends (p : Parsers) (path : String) (env : ReloadInputs) (d : Daemon) :
    Bool → String → Prop where
  | unreadable {e : String} :
      env.read = .error e → Ends p path env d false s!"cannot read {path}: {e}"
  | unchanged : env.read = .ok d.lastConfigBytes → Ends p path env d true ""
  | unparsed {bytes : ByteArray} {e : String} : env.read = .ok bytes →
      bytes ≠ d.lastConfigBytes → p.parseConfig bytes path = .error e → Ends p path env d false e
  | refused {bytes : ByteArray} {cfg : ValidatedConfig} {e : String} :
      Offers p path env d bytes cfg → Refuses env d cfg e → Ends p path env d false e

theorem Ends.ok_iff {env : ReloadInputs} {ok : Bool} {error : String}
    (h : Ends p path env d ok error) : ok = true ↔ env.read = .ok d.lastConfigBytes := by
  have reads {bytes : ByteArray} (read : env.read = .ok bytes) (differs : bytes ≠ d.lastConfigBytes) :
      false = true ↔ env.read = .ok d.lastConfigBytes :=
    ⟨nofun, fun same => absurd (Except.ok.inj (read.symm.trans same)) differs⟩
  cases h with
  | unreadable read => exact ⟨nofun, fun same => nomatch read.symm.trans same⟩
  | unchanged read => exact ⟨fun _ => read, fun _ => rfl⟩
  | unparsed read differs _ => exact reads read differs
  | refused offers _ => exact reads offers.read offers.differs

/-- A reload ends before it touches a map, or runs one transaction and commits when that
succeeds. -/
theorem reloadFile_inv {env : ReloadInputs} {applied : Bool}
    (run : Runs eff (d.reloadFile p path env) s evs (d', applied) s') :
    (∃ ok error, Ends p path env d ok error ∧ d' = d.noted env ok error ∧ applied = false ∧
      evs = [] ∧ s' = s) ∨
    ∃ bytes cfg plan r, Offers p path env d bytes cfg ∧ Plans env d cfg plan ∧
      Runs eff (transact (applyReloadSteps plan.actions env.oldPrefixes env.newPrefixes)) s evs r
        s' ∧
      ((r = .ok () ∧ applied = true ∧ d' = d.applied env bytes cfg plan) ∨
        ∃ e report, r = .error (e, report) ∧ applied = false ∧
          d' = { d.noted env false e.display with
            rollbackHealth := d.rollbackHealth.record report }) := by
  unfold reloadFile at run
  dsimp only at run
  cases hread : env.read with
  | error e =>
    simp only [hread] at run
    cases run
    exact .inl ⟨false, _, .unreadable hread, rfl, rfl, rfl, rfl⟩
  | ok bytes =>
    simp only [hread] at run
    by_cases same : bytes = d.lastConfigBytes
    · rw [if_pos same] at run
      cases run
      exact .inl ⟨true, _, .unchanged (same ▸ hread), rfl, rfl, rfl, rfl⟩
    · rw [if_neg same] at run
      cases hparse : p.parseConfig bytes path with
      | error e =>
        simp only [hparse] at run
        cases run
        exact .inl ⟨false, _, .unparsed hread same hparse, rfl, rfl, rfl, rfl⟩
      | ok cfg =>
        simp only [hparse] at run
        have offers : Offers p path env d bytes cfg := ⟨hread, same, hparse⟩
        obtain ⟨evs₁, ⟨d₁, r₁⟩, s₁, evs₂, apply, last, rfl⟩ := run.bind_inv
        rcases applyConfig_inv apply with ⟨e, refuses, rfl, rfl, rfl, rfl⟩ |
          ⟨plan, r, plans, transaction, ⟨rfl, rfl, rfl⟩ | ⟨e, report, rfl, rfl, rfl⟩⟩
        · cases last
          refine .inl ⟨false, e, .refused offers (?_), ?_, rfl, rfl, rfl⟩
          · cases refuses with
            | checked h => exact .checked h
            | planned h => exact .planned h
          · simp [noted, rejectReload, AnyError.display]
        · cases last
          rw [List.append_nil]
          refine .inr ⟨bytes, cfg, plan, _, offers, ?_, transaction, .inl ⟨rfl, rfl, rfl⟩⟩
          exact ⟨plans.checked, plans.planned⟩
        · cases last
          rw [List.append_nil]
          refine .inr ⟨bytes, cfg, plan, _, offers, ?_, transaction,
            .inr ⟨e, report, rfl, rfl, rfl⟩⟩
          exact ⟨plans.checked, plans.planned⟩

/-! ### Startup -/

/-- Filling the trie adds the prefixes. -/
theorem fillWhitelist_inv {cs : List Cidr} {maps maps' : Dataplane}
    {evs : List (Event MapOp AnyError Dataplane)}
    (run : Runs MapOp.exec (fillWhitelist cs) maps evs (.ok ()) maps') :
    maps' = { maps with monitoredIps := maps'.monitoredIps } ∧
      ∀ c, maps'.monitoredIps c = true ↔ maps.monitoredIps c = true ∨ c ∈ cs := by
  induction cs generalizing maps evs with
  | nil =>
    cases run
    simp
  | cons c cs ih =>
    cases run with
    | ok rest =>
      obtain ⟨others, listed⟩ := ih rest
      refine ⟨others, fun c' => ?_⟩
      rw [listed, List.mem_cons]
      by_cases same : c' = c
      · simp [MapOp.exec, same]
      · simp [MapOp.exec, same]
    | fail e rest => cases rest

/-- No insert has to fail. -/
theorem fillWhitelist_runs (cs : List Cidr) (maps : Dataplane) :
    ∃ evs maps', Runs MapOp.exec (fillWhitelist cs) maps evs (.ok ()) maps' := by
  induction cs generalizing maps with
  | nil => exact ⟨_, _, .done _ _⟩
  | cons c cs ih =>
    obtain ⟨evs, maps', rest⟩ := ih (MapOp.exec (.wlInsert c) maps).2
    exact ⟨_, maps', .ok rest⟩

/-- What `start` has read and planned when it succeeds. -/
structure Started (p : Parsers) (path : String) (env : StartInputs) (bytes : ByteArray)
    (cfg : ValidatedConfig) (plan : ReloadPlan) : Prop where
  read : env.read = .ok bytes
  parsed : p.parseConfig bytes path = .ok cfg
  planned : (Limiter.new (cfg.refreshIntervalMs / 1000)).planReload cfg env.now [] = .ok plan

theorem start_inv {env : StartInputs} {maps maps' : Dataplane}
    {evs : List (Event MapOp AnyError Dataplane)}
    (run : Runs MapOp.exec (start p path env) maps evs (.ok d) maps') :
    ∃ bytes cfg plan, Started p path env bytes cfg plan ∧ d = started env bytes cfg plan ∧
      Runs MapOp.exec (fillWhitelist (prefixSet cfg)) maps evs (.ok ()) maps' := by
  unfold start at run
  cases hread : env.read with
  | error e =>
    simp only [hread] at run
    cases run
  | ok bytes =>
    simp only [hread] at run
    cases hparse : p.parseConfig bytes path with
    | error e =>
      simp only [hparse] at run
      cases run
    | ok cfg =>
      simp only [hparse] at run
      obtain ⟨evs₁, filled, s₁, evs₂, fill, last, rfl⟩ := run.bind_inv
      cases filled with
      | error e => cases last
      | ok _ =>
        cases hplan : (Limiter.new (cfg.refreshIntervalMs / 1000)).planReload cfg env.now [] with
        | error e =>
          simp only [hplan] at last
          cases last
        | ok plan =>
          simp only [hplan] at last
          cases last
          rw [List.append_nil]
          exact ⟨bytes, cfg, plan, ⟨hread, hparse, hplan⟩, rfl, fill⟩

/-- A daemon that can read its configuration starts when no map operation fails. -/
theorem start_runs {env : StartInputs} {bytes : ByteArray} {cfg : ValidatedConfig}
    {plan : ReloadPlan} (started : Started p path env bytes cfg plan) (maps : Dataplane) :
    ∃ evs maps', Runs MapOp.exec (start p path env) maps evs
      (.ok (.started env bytes cfg plan)) maps' := by
  obtain ⟨evs, maps', fill⟩ := fillWhitelist_runs (prefixSet cfg) maps
  unfold start
  simp only [started.read, started.parsed]
  refine ⟨evs ++ [], maps', fill.bind ?_⟩
  simp only [started.planned]
  exact .done _ _

end Daemon

end VmWatcher

import VmWatcher.Daemon.Proofs.Handlers
import VmWatcher.Daemon.Proofs.Packets
import VmWatcher.Daemon.Proofs.Whitelist

/-!
# What holds between the handlers

Every handler leaves the engine with the index of the visible configuration. As long as
the status does not say that the dataplane is degraded, the maps are exactly what the
limiter and the configuration ask for; and no flow is ever armed that the limiter does not
take to be LIMITED.
-/

namespace VmWatcher

open OpProg

/-! ### The degraded flag -/

/-- The report says that the maps were restored when none of its steps failed. -/
def RollbackReport.Honest (report : RollbackReport) : Prop :=
  report.dataplaneConsistent = report.failures.isEmpty

theorem rollbackJournal_honest {journal : TxJournal} {σ σ' : Shape}
    {evs : List (Event MapOp AnyError Shape)} {report : RollbackReport}
    (run : Runs Shape.exec (rollbackJournal journal) σ evs report σ') : report.Honest :=
  (wp_sound (rollbackJournal_restores journal σ) run).1

/-- The error of a transaction comes with an honest report. -/
theorem transact_honest {tx : Tx Unit} {σ σ' : Shape} {evs : List (Event MapOp AnyError Shape)}
    {e : AnyError} {report : RollbackReport}
    (run : Runs Shape.exec (transact tx) σ evs (.error (e, report)) σ') : report.Honest := by
  obtain ⟨_, _, _, _, -, ⟨-, ended, -⟩ | ⟨_, _, _, -, ended, playback, -⟩⟩ := transact_inv run
  · cases ended
  · cases ended
    exact rollbackJournal_honest playback

namespace RollbackHealth

variable {health : RollbackHealth} {report : RollbackReport}

/-- The flag is set by the first rollback step that fails. -/
def Counts (health : RollbackHealth) : Prop := health.degraded = true ↔ 0 < health.failuresTotal

theorem record_degraded :
    (health.record report).degraded = (health.degraded || !report.dataplaneConsistent) := by
  unfold record
  cases report.dataplaneConsistent <;> simp

theorem record_failuresTotal (honest : report.Honest) :
    (health.record report).failuresTotal = health.failuresTotal + report.failures.length := by
  unfold record
  cases hclean : report.dataplaneConsistent with
  | true =>
    have silent : report.failures = [] := List.isEmpty_iff.mp (honest.symm.trans hclean)
    simp [silent]
  | false => simp

theorem Counts.record (h : health.Counts) (honest : report.Honest) :
    (health.record report).Counts := by
  unfold Counts at h ⊢
  rw [record_degraded, record_failuresTotal honest, honest]
  cases report.failures with
  | nil => simpa using h
  | cons f fs => simp

end RollbackHealth

/-- Surfacing the failures of a tick degrades the dataplane when one of their rollbacks
failed, and counts every rollback step that did. -/
theorem Daemon.surfaceFailures_degraded (failures : List TickActionFailure)
    (health : RollbackHealth) : (surfaceFailures health failures).degraded =
      (health.degraded || !failures.all (·.report.dataplaneConsistent)) := by
  induction failures generalizing health with
  | nil => simp [surfaceFailures]
  | cons failure failures ih =>
    have step : surfaceFailures health (failure :: failures) =
        surfaceFailures (health.record failure.report) failures := rfl
    rw [step, ih, RollbackHealth.record_degraded, List.all_cons, Bool.not_and, Bool.or_assoc]

theorem Daemon.surfaceFailures_counts {failures : List TickActionFailure}
    {health : RollbackHealth} (h : health.Counts)
    (honest : ∀ failure ∈ failures, failure.report.Honest) :
    (surfaceFailures health failures).Counts := by
  induction failures generalizing health with
  | nil => exact h
  | cons failure failures ih =>
    obtain ⟨first, rest⟩ := List.forall_mem_cons.mp honest
    exact ih (h.record first) rest

/-! ### The actions of a tick -/

/-- The limiter and the failures that the actions of a tick leave: what reverting keeps, and
what every report says. -/
theorem applyEachTickAction_keeps {P : Limiter → Prop} {actions : List LimitAction}
    {l l' : Limiter} {failures : List TickActionFailure} {σ σ' : Shape}
    {evs : List (Event MapOp AnyError Shape)}
    (reverts : ∀ l action, P l → P (l.revertFailedAction action)) (h : P l)
    (run : Runs Shape.exec (applyEachTickAction l actions) σ evs (l', failures) σ') :
    P l' ∧ ∀ failure ∈ failures, failure.report.Honest := by
  induction actions generalizing l σ evs failures with
  | nil =>
    cases run
    exact ⟨h, nofun⟩
  | cons action actions ih =>
    obtain ⟨evs₁, ⟨l₁, failures₁⟩, σ₁, evs₂, first, rest, rfl⟩ := run.bind_inv
    obtain ⟨evs₃, ⟨l₂, failures₂⟩, σ₂, evs₄, second, last, rfl⟩ := rest.bind_inv
    cases last
    obtain ⟨evs₅, r, σ₃, evs₆, transaction, done, rfl⟩ := first.bind_inv
    cases r with
    | ok _ =>
      cases done
      exact ih h second
    | error e =>
      cases done
      obtain ⟨kept, honest⟩ := ih (reverts l action h) second
      exact ⟨kept, List.forall_mem_cons.mpr ⟨transact_honest transaction, honest⟩⟩

/-! ### The invariant -/

theorem Parsers.accepted {p : Parsers} {bytes : ByteArray} {path : String}
    {cfg : ValidatedConfig} (h : p.parseConfig bytes path = .ok cfg) : cfg.Accepted := by
  unfold parseConfig at h
  cases htext : String.fromUTF8? bytes with
  | none =>
    simp only [htext] at h
    cases h
  | some text =>
    simp only [htext] at h
    obtain ⟨config, -, parsed⟩ := ExceptRules.bind_eq_ok.mp (ExceptRules.mapError_eq_ok.mp h)
    exact ValidatedConfig.accepted_of_parse parsed

namespace Node

variable {p : Parsers} {path : String} {reaches : RollingWindow → ℕ → Bool} {host : ByteOrder}
variable {s s' : Node}

/-- What holds of the engine and the maps between two handlers. -/
structure Sound (p : Parsers) (path : String) (reaches : RollingWindow → ℕ → Bool) (s : Node) :
    Prop where
  parsed : p.parseConfig s.daemon.lastConfigBytes path = .ok s.daemon.engine.config
  indexed : buildIndex s.daemon.engine.config =
    .ok (s.daemon.engine.limiter.ranges, s.daemon.engine.limiter.overrides)
  tickSecs : s.daemon.engine.limiter.tickSecs * 1000 = s.daemon.engine.config.refreshIntervalMs
  limiter : ∃ pending, Limiter.Reachable reaches ValidatedConfig.Accepted false
    s.daemon.engine.limiter pending
  agrees : Agrees (!s.daemon.rollbackHealth.degraded) s.daemon.engine.limiter s.maps.shape
  filled : s.daemon.rollbackHealth.degraded = false →
    ∀ c, s.maps.monitoredIps c = true ↔ c ∈ prefixSet s.daemon.engine.config
  counts : s.daemon.rollbackHealth.Counts
  told : s.daemon.configWatch = s.daemon.engine.generation
  bridge : s.daemon.engine.config.bridge = s.daemon.startup.bridge

theorem Sound.accepted (h : s.Sound p path reaches) : s.daemon.engine.config.Accepted :=
  Parsers.accepted h.parsed

/-- What the handlers do not look at may change. -/
theorem Sound.congr (h : s.Sound p path reaches) (engine : s'.daemon.engine = s.daemon.engine)
    (bytes : s'.daemon.lastConfigBytes = s.daemon.lastConfigBytes)
    (watch : s'.daemon.configWatch = s.daemon.configWatch)
    (health : s'.daemon.rollbackHealth = s.daemon.rollbackHealth)
    (startup : s'.daemon.startup = s.daemon.startup) (maps : s'.maps.shape = s.maps.shape) :
    s'.Sound p path reaches := by
  have listed : s'.maps.monitoredIps = s.maps.monitoredIps := congrArg Shape.whitelisted maps
  constructor
  · rw [engine, bytes]
    exact h.parsed
  · rw [engine]
    exact h.indexed
  · rw [engine]
    exact h.tickSecs
  · rw [engine]
    exact h.limiter
  · rw [engine, health, maps]
    exact h.agrees
  · rw [engine, health, listed]
    exact h.filled
  · rw [health]
    exact h.counts
  · rw [engine, watch]
    exact h.told
  · rw [engine, startup]
    exact h.bridge

/-! ### Collection ticks -/

/-- A collection tick amid packets, on the shape of the maps. -/
theorem Collects.inv (h : s.Collects reaches host s') :
    ∃ env limiter failures evs, env.Fits reaches s.daemon ∧
      Runs Shape.exec
        (applyTickActions (s.daemon.ticked reaches env).1 (s.daemon.ticked reaches env).2)
        s.maps.shape evs (limiter, failures) s'.maps.shape ∧
      s'.daemon = s.daemon.afterTick env limiter failures := by
  obtain ⟨env, evs, fits, run⟩ := h
  obtain ⟨limiter, failures, actions, result⟩ :=
    Daemon.collectTick_inv (Dataplane.runsAmid_shape run)
  exact ⟨env, limiter, failures, _, fits, actions, result⟩

theorem Sound.collect (h : s.Sound p path reaches) (tick : s.Collects reaches host s') :
    s'.Sound p path reaches := by
  obtain ⟨env, limiter, failures, evs, fits, run, result⟩ := tick.inv
  obtain ⟨pending, reached⟩ := h.limiter
  have between := h.agrees.tick reaches reached.ok.1 env.now (s.daemon.polled env).2.totals
    fits.ips.nodup
  have ended := between.run run
  have ticked := Limiter.tick_sameIndex reaches env.now (s.daemon.polled env).2.totals
    s.daemon.engine.limiter env.ips
  obtain ⟨same, honest⟩ := applyEachTickAction_keeps
    (P := fun l => s.daemon.engine.limiter.SameIndex l)
    (fun l action hl => hl.trans (Limiter.revertFailedAction_sameIndex l action)) ticked run
  have degraded : s'.daemon.rollbackHealth.degraded =
      (s.daemon.rollbackHealth.degraded || !failures.all (·.report.dataplaneConsistent)) := by
    rw [result]
    exact Daemon.surfaceFailures_degraded failures s.daemon.rollbackHealth
  have config : s'.daemon.engine.config = s.daemon.engine.config := by rw [result]; rfl
  have after : s'.daemon.engine.limiter = limiter := by rw [result]; rfl
  have listed : s'.maps.monitoredIps = s.maps.monitoredIps := applyEachTickAction_lists _ run
  constructor
  · rw [result]
    exact h.parsed
  · rw [config, after, same.ranges, same.overrides]
    exact h.indexed
  · rw [config, after, same.tickSecs]
    exact h.tickSecs
  · rw [after]
    refine ⟨_, reachable_applyEachTickAction (reached.tick _ _ fits.ips) ?_ run⟩
    intro a ha
    rcases List.mem_append.mp ha with ha | ha
    · exact (List.mem_filter.mp ha).1
    · exact (List.mem_filter.mp ha).1
  · rw [after, degraded, Bool.not_or, Bool.not_not]
    exact fun flow => ended.others flow List.not_mem_nil
  · rw [config, listed, degraded]
    intro clean
    exact h.filled (Bool.or_eq_false_iff.mp clean).1
  · rw [result]
    exact Daemon.surfaceFailures_counts h.counts honest
  · rw [result]
    exact h.told
  · rw [result]
    exact h.bridge

/-! ### Reloads -/

/-- A reload amid packets, on the shape of the maps. -/
theorem reloadFile_inv {env : ReloadInputs} {applied : Bool}
    {evs : List (Event MapOp AnyError Dataplane)}
    (run : RunsAmid (Dataplane.Packet host) MapOp.exec (s.daemon.reloadFile p path env) s.maps evs
      (s'.daemon, applied) s'.maps) :
    (∃ ok error, Daemon.Ends p path env s.daemon ok error ∧
      s'.daemon = s.daemon.noted env ok error ∧ applied = false ∧ evs = [] ∧
      s'.maps.shape = s.maps.shape) ∨
    ∃ bytes cfg plan r evs', Daemon.Offers p path env s.daemon bytes cfg ∧
      Daemon.Plans env s.daemon cfg plan ∧
      Runs Shape.exec (transact (applyReloadSteps plan.actions env.oldPrefixes env.newPrefixes))
        s.maps.shape evs' r s'.maps.shape ∧
      ((r = .ok () ∧ applied = true ∧ s'.daemon = s.daemon.applied env bytes cfg plan) ∨
        ∃ e report, r = .error (e, report) ∧ applied = false ∧
          s'.daemon = { s.daemon.noted env false e.display with
            rollbackHealth := s.daemon.rollbackHealth.record report }) := by
  rcases Daemon.reloadFile_inv (Dataplane.runsAmid_shape run) with
    ⟨ok, error, ends, result, same, silent, still⟩ |
    ⟨bytes, cfg, plan, r, offers, plans, transaction, outcome⟩
  · exact .inl ⟨ok, error, ends, result, same, List.map_eq_nil_iff.mp silent, still⟩
  · exact .inr ⟨bytes, cfg, plan, r, _, offers, plans, transaction, outcome⟩

/-- What a transaction of a reload leaves of the agreement. -/
theorem Sound.transaction (h : s.Sound p path reaches) {env : ReloadInputs}
    (fits : env.Fits p path s.daemon) {bytes : ByteArray} {cfg : ValidatedConfig}
    {plan : ReloadPlan} (offers : Daemon.Offers p path env s.daemon bytes cfg)
    (plans : Daemon.Plans env s.daemon cfg plan) {r : Except (AnyError × RollbackReport) Unit}
    {evs : List (Event MapOp AnyError Shape)} {σ' : Shape}
    (run : Runs Shape.exec
      (transact (applyReloadSteps plan.actions env.oldPrefixes env.newPrefixes)) s.maps.shape evs r
      σ') :
    Agrees (!s.daemon.rollbackHealth.degraded && cleanEnd Prod.snd r)
        (if r.isOk then s.daemon.engine.limiter.commitReload plan else s.daemon.engine.limiter) σ' ∧
      (s.daemon.rollbackHealth.degraded = false → cleanEnd Prod.snd r = true →
        ∀ c, σ'.whitelisted c = true ↔
          c ∈ if r.isOk then prefixSet cfg else prefixSet s.daemon.engine.config) := by
  obtain ⟨pending, reached⟩ := h.limiter
  refine ⟨h.agrees.reload reached.ok.1 fits.limited plans.planned (reloadSteps_outcome run), ?_⟩
  intro healthy clean c
  have settled := h.agrees.settled (by rw [healthy]; rfl)
  have listed : ∀ c, s.maps.shape.whitelisted c = true ↔ c ∈ env.oldPrefixes :=
    fun c => (h.filled healthy c).trans (fits.oldPrefixes.mem_iff c).symm
  have swaps := transact_swaps settled listed run
  cases hr : r.isOk with
  | true =>
    rw [if_pos rfl]
    exact (swaps.accepted hr c).trans
      ((fits.newPrefixes bytes cfg offers.read offers.parsed).mem_iff c)
  | false =>
    rw [if_neg Bool.false_ne_true]
    exact (swaps.rejected clean hr c).trans (fits.oldPrefixes.mem_iff c)

/-- A reload that was only noted. -/
theorem Sound.noted (h : s.Sound p path reaches) {env : ReloadInputs} {ok : Bool} {error : String}
    (result : s'.daemon = s.daemon.noted env ok error) (still : s'.maps.shape = s.maps.shape) :
    s'.Sound p path reaches := by
  apply h.congr
  · rw [result, Daemon.noted_engine]
  · rw [result, Daemon.noted_lastConfigBytes]
  · rw [result, Daemon.noted_configWatch]
  · rw [result, Daemon.noted_rollbackHealth]
  · rw [result, Daemon.noted_startup]
  · exact still

/-- A reload that was carried out. -/
theorem Sound.applied (h : s.Sound p path reaches) {env : ReloadInputs}
    (fits : env.Fits p path s.daemon) {bytes : ByteArray} {cfg : ValidatedConfig}
    {plan : ReloadPlan} (offers : Daemon.Offers p path env s.daemon bytes cfg)
    (plans : Daemon.Plans env s.daemon cfg plan) {evs : List (Event MapOp AnyError Shape)}
    (run : Runs Shape.exec
      (transact (applyReloadSteps plan.actions env.oldPrefixes env.newPrefixes)) s.maps.shape evs
      (.ok ()) s'.maps.shape) (result : s'.daemon = s.daemon.applied env bytes cfg plan) :
    s'.Sound p path reaches := by
  obtain ⟨agrees, filled⟩ := h.transaction fits offers plans run
  obtain ⟨pending, reached⟩ := h.limiter
  obtain ⟨bridge, interval, -⟩ := checkReload_inv plans.checked
  obtain ⟨secs, ranges, overrides⟩ := Limiter.commitReload_index s.daemon.engine.limiter plan
  have engine : s'.daemon.engine = ⟨s.daemon.engine.limiter.commitReload plan, cfg,
      s.daemon.engine.generation + 1⟩ := by rw [result, Daemon.applied_engine]
  have health : s'.daemon.rollbackHealth = s.daemon.rollbackHealth := by
    rw [result, Daemon.applied_rollbackHealth]
  constructor
  · rw [engine, result, Daemon.applied_lastConfigBytes]
    exact offers.parsed
  · rw [engine, ranges, overrides]
    exact (Limiter.planReload_eq plans.planned).1
  · rw [engine, interval, secs]
    exact h.tickSecs
  · rw [engine]
    exact ⟨_, reached.reload (Parsers.accepted offers.parsed) fits.limited plans.planned⟩
  · rw [engine, health]
    change Agrees (_ && true) (s.daemon.engine.limiter.commitReload plan) _ at agrees
    rwa [Bool.and_true] at agrees
  · rw [engine, health]
    intro healthy
    exact filled healthy rfl
  · rw [health]
    exact h.counts
  · rw [engine, result, Daemon.applied_configWatch]
  · rw [engine, result, Daemon.applied_startup]
    exact bridge

/-- A reload that was taken back. -/
theorem Sound.takenBack (h : s.Sound p path reaches) {env : ReloadInputs}
    (fits : env.Fits p path s.daemon) {bytes : ByteArray} {cfg : ValidatedConfig}
    {plan : ReloadPlan} (offers : Daemon.Offers p path env s.daemon bytes cfg)
    (plans : Daemon.Plans env s.daemon cfg plan) {evs : List (Event MapOp AnyError Shape)}
    {e : AnyError} {report : RollbackReport}
    (run : Runs Shape.exec
      (transact (applyReloadSteps plan.actions env.oldPrefixes env.newPrefixes)) s.maps.shape evs
      (.error (e, report)) s'.maps.shape)
    (result : s'.daemon = { s.daemon.noted env false e.display with
      rollbackHealth := s.daemon.rollbackHealth.record report }) : s'.Sound p path reaches := by
  obtain ⟨agrees, filled⟩ := h.transaction fits offers plans run
  have health : s'.daemon.rollbackHealth = s.daemon.rollbackHealth.record report := by rw [result]
  have engine : s'.daemon.engine = s.daemon.engine := by rw [result, Daemon.noted_engine]
  constructor
  · rw [engine, result, Daemon.noted_lastConfigBytes]
    exact h.parsed
  · rw [engine]
    exact h.indexed
  · rw [engine]
    exact h.tickSecs
  · rw [engine]
    exact h.limiter
  · rw [engine, health, RollbackHealth.record_degraded, Bool.not_or, Bool.not_not]
    exact agrees
  · rw [engine, health, RollbackHealth.record_degraded]
    intro healthy
    obtain ⟨before, clean⟩ := Bool.or_eq_false_iff.mp healthy
    have consistent : report.dataplaneConsistent = true := by simpa using clean
    exact filled before consistent
  · rw [health]
    exact h.counts.record (transact_honest run)
  · rw [engine, result, Daemon.noted_configWatch]
    exact h.told
  · rw [engine, result, Daemon.noted_startup]
    exact h.bridge

theorem Sound.reload (h : s.Sound p path reaches) {env : ReloadInputs}
    (fits : env.Fits p path s.daemon) {applied : Bool}
    {evs : List (Event MapOp AnyError Dataplane)}
    (run : RunsAmid (Dataplane.Packet host) MapOp.exec (s.daemon.reloadFile p path env) s.maps evs
      (s'.daemon, applied) s'.maps) : s'.Sound p path reaches := by
  rcases reloadFile_inv run with ⟨ok, error, -, result, -, -, still⟩ |
    ⟨bytes, cfg, plan, r, evs', offers, plans, transaction,
      ⟨rfl, -, result⟩ | ⟨e, report, rfl, -, result⟩⟩
  · exact h.noted result still
  · exact h.applied fits offers plans transaction result
  · exact h.takenBack fits offers plans transaction result

/-! ### Whole runs -/

theorem Sound.start {env : StartInputs} {evs : List (Event MapOp AnyError Dataplane)}
    (run : Runs MapOp.exec (Daemon.start p path env) Dataplane.empty evs (.ok s.daemon) s.maps) :
    s.Sound p path reaches := by
  obtain ⟨bytes, cfg, plan, started, result, fill⟩ := Daemon.start_inv run
  obtain ⟨others, listed⟩ := Daemon.fillWhitelist_inv fill
  have accepted := Parsers.accepted started.parsed
  obtain ⟨secs, ranges, overrides⟩ :=
    Limiter.commitReload_index (Limiter.new (cfg.refreshIntervalMs / 1000)) plan
  have starts : System.Starts ⟨s.daemon.engine, s.maps⟩ := by
    rw [result]
    exact ⟨accepted, ⟨env.now, plan, started.planned, rfl⟩, by rw [others]; rfl, by rw [others]; rfl,
      by rw [others]; rfl⟩
  have fresh : System.Reachable reaches System.Starts ⟨s.daemon.engine, s.maps⟩ true :=
    .start starts
  constructor
  · rw [result]
    exact started.parsed
  · rw [result]
    simp only [Daemon.started, ranges, overrides]
    exact (Limiter.planReload_eq started.planned).1
  · rw [result]
    simp only [Daemon.started, secs]
    obtain ⟨least, whole⟩ := accepted.refreshInterval
    simp only [Limiter.new]
    omega
  · exact fresh.limiter fun _ => id
  · rw [result]
    rw [result] at fresh
    exact fresh.agrees fun _ => id
  · intro _ c
    rw [listed, result]
    simp [Daemon.started, Dataplane.empty]
  · rw [result]
    simp [Daemon.started, RollbackHealth.Counts]
  · rw [result]
    rfl
  · rw [result]
    rfl

theorem Sound.step (h : s.Sound p path reaches) (step : s.Step p path reaches host s') :
    s'.Sound p path reaches := by
  cases step with
  | packet packet => exact h.congr rfl rfl rfl rfl rfl packet.shape
  | collect tick => exact h.collect tick
  | ignore fits run => exact h.reload fits run
  | reload fits run tick => exact (h.reload fits run).collect tick
  | watcherError e => exact h.congr rfl rfl rfl rfl rfl rfl
  | rescan scan =>
    cases scan with
    | none => exact h
    | some found => exact h.congr rfl rfl rfl rfl rfl rfl

theorem Reachable.sound (h : s.Reachable p path reaches host) : s.Sound p path reaches := by
  induction h with
  | start run => exact .start run
  | step _ step ih => exact ih.step step

end Node

end VmWatcher

import Mathlib.Data.FinEnum
import VmWatcher.Daemon.Proofs.InForce
import VmWatcher.Daemon.Watch

/-!
# No save goes unnoticed

Between the file and the engine a save can wait in four places. Wherever it is, something is
under way that ends with the engine reading the file, or with the status saying that the
watcher has failed: the engine never runs a configuration that is not the saved one while all
is quiet and the status shows no error.
-/

namespace VmWatcher

open Limiter OpProg

namespace Watched

variable {p : Parsers} {path target : String} {reaches : RollingWindow → ℕ → Bool}
variable {host : ByteOrder} {s s' : Watched}

/-! ### What a handler does to the status -/

/-- What a daemon holds of the file, and whether its watcher has failed. -/
structure SameStatus (d d' : Daemon) : Prop where
  bytes : d'.lastConfigBytes = d.lastConfigBytes
  reloadOk : d'.lastReloadOk = d.lastReloadOk
  healthy : d'.configWatcherHealthy = d.configWatcherHealthy

theorem collect_sameStatus {node node' : Node} (h : node.Collects reaches host node') :
    SameStatus node.daemon node'.daemon := by
  obtain ⟨env, limiter, failures, evs, -, -, result⟩ := h.inv
  rw [result]
  exact ⟨rfl, rfl, rfl⟩

theorem rescan_sameStatus (d : Daemon) (scan : Option (ℕ × ℕ)) :
    SameStatus d (d.rescanTaps scan) := by
  cases scan with
  | none => exact ⟨rfl, rfl, rfl⟩
  | some found => exact ⟨rfl, rfl, rfl⟩

/-- The daemon holds the file as it is, or its last reload failed. -/
def Answers (file : Except String ByteArray) (d : Daemon) : Prop :=
  ∀ bytes, file = .ok bytes → d.lastConfigBytes = bytes ∨ d.lastReloadOk = false

theorem Answers.congr {file : Except String ByteArray} {d d' : Daemon} (h : Answers file d)
    (same : SameStatus d d') : Answers file d' := by
  intro bytes hfile
  rw [same.bytes, same.reloadOk]
  exact h bytes hfile

/-- A reload leaves the daemon with the file it has read, or with an error. -/
theorem reload_answers {node node' : Node} {env : ReloadInputs} {applied : Bool}
    {evs : List (Event MapOp AnyError Dataplane)}
    (run : RunsAmid (Dataplane.Packet host) MapOp.exec (node.daemon.reloadFile p path env)
      node.maps evs (node'.daemon, applied) node'.maps) :
    Answers env.read node'.daemon ∧
      node'.daemon.configWatcherHealthy = node.daemon.configWatcherHealthy := by
  rcases Node.reloadFile_inv run with
    ⟨ok, error, ends, result, -⟩ | ⟨bytes, cfg, plan, r, evs', offers, -, -, outcome⟩
  · rw [result]
    refine ⟨fun bytes read => ?_, Daemon.noted_configWatcherHealthy ..⟩
    rw [Daemon.noted_lastReloadOk, Daemon.noted_lastConfigBytes]
    cases hok : ok with
    | true =>
      rw [ends.ok_iff.mp hok] at read
      exact .inl (Except.ok.inj read)
    | false => exact .inr rfl
  · rcases outcome with ⟨-, -, result⟩ | ⟨e, report, -, -, result⟩
    · rw [result]
      refine ⟨fun bytes' read => .inl ?_, Daemon.applied_configWatcherHealthy ..⟩
      rw [Daemon.applied_lastConfigBytes]
      exact Except.ok.inj (offers.read.symm.trans read)
    · rw [result]
      have failed : (node.daemon.noted env false e.display).lastReloadOk = false :=
        Daemon.noted_lastReloadOk ..
      have healthy : (node.daemon.noted env false e.display).configWatcherHealthy =
          node.daemon.configWatcherHealthy := Daemon.noted_configWatcherHealthy ..
      exact ⟨fun _ _ => .inr failed, healthy⟩

/-! ### Between the file and the engine -/

/-- A save or a message is under way. -/
def Busy (target : String) (s : Watched) : Prop :=
  s.unreported = true ∨ (∃ batch ∈ s.batches, (watchMsg target batch).isSome) ∨
    s.sending.isSome ∨ s.channel ≠ []

/-- No save that the engine has not read is lost. -/
structure Alert (target : String) (s : Watched) : Prop where
  read : s.due = false → Answers s.file s.node.daemon
  alert : s.phase = .running → s.due = true →
    s.Busy target ∨ s.node.daemon.configWatcherHealthy = false
  blind : s.phase ≠ .booting → s.watching = false →
    s.node.daemon.configWatcherHealthy = false

theorem trySend_ne_nil (msg : WatchMsg) (channel : List WatchMsg) :
    trySend msg channel ≠ [] := by
  unfold trySend
  split
  · simp
  · rename_i full
    intro none
    rw [none] at full
    exact full (by decide)

theorem Alert.start {env : StartInputs} {evs : List (Event MapOp AnyError Dataplane)}
    {node : Node}
    (run : Runs MapOp.exec (Daemon.start p path env) Dataplane.empty evs (.ok node.daemon)
      node.maps) :
    Alert target ⟨node, .booting, env.read, false, false, [], none, [], false⟩ := by
  obtain ⟨bytes, cfg, plan, started, result, -⟩ := Daemon.start_inv run
  refine ⟨fun _ bytes' read => .inl ?_, nofun, fun boots => absurd rfl boots⟩
  rw [result]
  exact Except.ok.inj (started.read.symm.trans read)

/-- Steps of the daemon that do not touch the file. -/
theorem Alert.node (h : s.Alert target) {node : Node}
    (same : SameStatus s.node.daemon node.daemon) : Alert target { s with node } := by
  constructor
  · exact fun due => (h.read due).congr same
  · intro running due
    dsimp only
    rw [same.healthy]
    exact h.alert running due
  · intro boots blind
    dsimp only
    rw [same.healthy]
    exact h.blind boots blind

theorem Alert.drain (h : s.Alert target) (step : Drain p path target reaches host s s') :
    s'.Alert target := by
  cases step with
  | @take batch batches idle more =>
    refine ⟨h.read, fun running due => ?_, h.blind⟩
    rcases h.alert running due with (unreported | ⟨b, hb, told⟩ | sending | channel) | failed
    · exact .inl (.inl unreported)
    · rw [more] at hb
      rcases List.mem_cons.mp hb with rfl | hb
      · exact .inl (.inr (.inr (.inl told)))
      · exact .inl (.inr (.inl ⟨b, hb, told⟩))
    · rw [idle] at sending
      cases sending
    · exact .inl (.inr (.inr (.inr channel)))
    · exact .inr failed
  | send sending room =>
    exact ⟨h.read, fun _ _ => .inl (.inr (.inr (.inr (by simp)))), h.blind⟩
  | ignore running head fits read run =>
    obtain ⟨answers, healthy⟩ := reload_answers run
    refine ⟨fun _ => read ▸ answers, fun _ due => (nomatch due), fun boots blind => ?_⟩
    exact healthy.trans (h.blind boots blind)
  | reload running head fits read run tick =>
    obtain ⟨answers, healthy⟩ := reload_answers run
    have same := collect_sameStatus tick
    refine ⟨fun _ => (read ▸ answers).congr same, fun _ due => (nomatch due),
      fun boots blind => ?_⟩
    exact same.healthy.trans (healthy.trans (h.blind boots blind))
  | error running head =>
    exact ⟨h.read, fun _ _ => .inr rfl, fun _ _ => rfl⟩

theorem Alert.step (h : s.Alert target) (step : Step p path target reaches host s s') :
    s'.Alert target := by
  cases step with
  | packet packet => exact h.node ⟨rfl, rfl, rfl⟩
  | collect running tick => exact h.node (collect_sameStatus tick)
  | rescan scan running => exact h.node (rescan_sameStatus _ scan)
  | save bytes =>
    refine ⟨nofun, fun running _ => ?_, h.blind⟩
    cases hwatching : s.watching with
    | true => exact .inl (.inl (by simp))
    | false => exact .inr (h.blind (by rw [running]; exact nofun) hwatching)
  | remove e => exact ⟨fun _ _ gone => (nomatch gone), h.alert, h.blind⟩
  | watch booting =>
    exact ⟨h.read, nofun, nofun⟩
  | unwatched e booting => exact ⟨h.read, nofun, fun _ _ => rfl⟩
  | compare watched =>
    constructor
    · intro same bytes hfile
      refine .inl ?_
      have equal : s.movedOn = false := same
      dsimp only at hfile
      rw [movedOn, hfile] at equal
      exact (of_decide_eq_false equal |> not_not.mp).symm
    · intro _ moved
      have sent : s.movedOn = true := moved
      refine .inl (.inr (.inr (.inr ?_)))
      dsimp only
      rw [if_pos sent]
      exact trySend_ne_nil _ _
    · intro _ blind
      exact h.blind (by rw [watched]; exact nofun) blind
  | deliver batch watching =>
    refine ⟨h.read, fun running due => ?_, h.blind⟩
    rcases h.alert running due with (unreported | ⟨b, hb, told⟩ | sending | channel) | failed
    · cases told : (watchMsg target batch).isSome with
      | true => exact .inl (.inr (.inl ⟨batch, by simp, told⟩))
      | false => exact .inl (.inl (by simp [unreported]))
    · exact .inl (.inr (.inl ⟨b, List.mem_append_left _ hb, told⟩))
    · exact .inl (.inr (.inr (.inl sending)))
    · exact .inl (.inr (.inr (.inr channel)))
    · exact .inr failed
  | sighup running =>
    exact ⟨nofun, fun _ _ => .inl (.inr (.inr (.inr (trySend_ne_nil _ _)))), h.blind⟩
  | drain step => exact h.drain step

theorem Reachable.alert (h : s.Reachable p path target reaches host) : s.Alert target := by
  induction h with
  | start run => exact .start run
  | step _ step ih => exact ih.step step

/-- The daemon is one of those that take steps in any order. -/
theorem Reachable.node (h : s.Reachable p path target reaches host) :
    s.node.Reachable p path reaches host := by
  induction h with
  | start run => exact .start run
  | step _ step ih =>
    cases step with
    | packet packet => exact ih.step (.packet packet)
    | collect running tick => exact ih.step (.collect tick)
    | rescan scan running => exact ih.step (.rescan scan)
    | unwatched e booting => exact ih.step (.watcherError e)
    | drain step =>
      cases step with
      | ignore running head fits read run => exact ih.step (.ignore fits run)
      | reload running head fits read run tick => exact ih.step (.reload fits run tick)
      | error running head => exact ih.step (.watcherError _)
      | take => exact ih
      | send => exact ih
    | save | remove | watch | compare | deliver | sighup => exact ih

/-! ### The backlog drains -/

/-- What is left to do until all is handled. -/
def weight (s : Watched) : ℕ :=
  3 * s.batches.length + 2 * s.sending.toList.length + s.channel.length

/-- So many steps of the watcher thread and of the engine that handles its messages. -/
inductive Drains (p : Parsers) (path target : String) (reaches : RollingWindow → ℕ → Bool)
    (host : ByteOrder) : ℕ → Watched → Watched → Prop where
  | done (s : Watched) : Drains p path target reaches host 0 s s
  | step {n : ℕ} {s s' s'' : Watched} : Drain p path target reaches host s s' →
      Drains p path target reaches host n s' s'' → Drains p path target reaches host (n + 1) s s''

theorem Drain.weight_lt (h : Drain p path target reaches host s s') : s'.weight < s.weight := by
  cases h with
  | @take batch batches idle more =>
    simp only [weight, more, idle, List.length_cons, Option.toList_none, List.length_nil]
    cases watchMsg target batch with
    | none =>
      simp only [Option.toList_none, List.length_nil]
      omega
    | some msg =>
      simp only [Option.toList_some, List.length_singleton]
      omega
  | send sending room =>
    simp only [weight, sending, Option.toList_none, Option.toList_some, List.length_nil,
      List.length_singleton, List.length_append]
    omega
  | ignore running head =>
    simp only [weight, head, List.length_cons]
    omega
  | reload running head =>
    simp only [weight, head, List.length_cons]
    omega
  | error running head =>
    simp only [weight, head, List.length_cons]
    omega

theorem Drain.phase (h : Drain p path target reaches host s s') : s'.phase = s.phase := by
  cases h <;> rfl

/-- A collection tick can always be taken. -/
theorem exists_collects (node : Node) : ∃ node', node.Collects reaches host node' := by
  let env : TickInputs := ⟨⟨[], [], [], false⟩, 0, [], 0, [], []⟩
  obtain ⟨ips, ipsVisits⟩ := Visits.exists_of_finite
    (node.daemon.engine.limiter.Evaluated (node.daemon.polled env).2.totals)
  obtain ⟨rows, rowsVisits⟩ := Visits.exists_of_finite
    fun ip => ((node.daemon.polled env).1.totals ip).isSome
  have run := runs_exec MapOp.exec (node.daemon.collectTick reaches { env with ips, rows })
    (fun _ => none) node.maps
  exact ⟨⟨_, _⟩, _, _, ⟨ipsVisits, rowsVisits⟩, run.amid⟩

/-- Every reload can be handled, whatever the file says. -/
theorem exists_reload {channel : List WatchMsg} (running : s.phase = .running)
    (head : s.channel = .reload :: channel) : ∃ s', Drain p path target reaches host s s' := by
  obtain ⟨limited, limitedVisits⟩ := Visits.exists_of_finite s.node.daemon.engine.limiter.Limited
  obtain ⟨old, oldVisits⟩ := Visits.exists_of_finite (· ∈ prefixSet s.node.daemon.engine.config)
  obtain ⟨new, newVisits⟩ : ∃ new, ∀ bytes cfg, s.file = .ok bytes →
      p.parseConfig bytes path = .ok cfg → Visits new (· ∈ prefixSet cfg) := by
    cases hfile : s.file with
    | error e => exact ⟨[], nofun⟩
    | ok bytes =>
      cases hparse : p.parseConfig bytes path with
      | error e =>
        refine ⟨[], fun bytes' cfg read parsed => ?_⟩
        rw [← Except.ok.inj read, hparse] at parsed
        cases parsed
      | ok cfg =>
        obtain ⟨new, visits⟩ := Visits.exists_of_finite (· ∈ prefixSet cfg)
        refine ⟨new, fun bytes' cfg' read parsed => ?_⟩
        rw [← Except.ok.inj read, hparse] at parsed
        exact Except.ok.inj parsed ▸ visits
  let env : ReloadInputs := ⟨s.file, 0, 0, limited, old, new⟩
  have fits : env.Fits p path s.node.daemon := ⟨limitedVisits, oldVisits, newVisits⟩
  have run := runs_exec MapOp.exec (s.node.daemon.reloadFile p path env) (fun _ => none)
    s.node.maps
  cases hout : exec MapOp.exec (s.node.daemon.reloadFile p path env) (fun _ => none)
    s.node.maps with
  | mk evs rest =>
    obtain ⟨⟨daemon, applied⟩, maps⟩ := rest
    rw [hout] at run
    cases applied with
    | false =>
      let node : Node := ⟨daemon, maps⟩
      have ended : RunsAmid (Dataplane.Packet host) MapOp.exec
          (s.node.daemon.reloadFile p path env) s.node.maps evs (node.daemon, false)
          node.maps := run.amid
      exact ⟨_, .ignore running head fits rfl ended⟩
    | true =>
      let mid : Node := ⟨daemon, maps⟩
      have ended : RunsAmid (Dataplane.Packet host) MapOp.exec
          (s.node.daemon.reloadFile p path env) s.node.maps evs (mid.daemon, true)
          mid.maps := run.amid
      obtain ⟨node, tick⟩ := exists_collects mid
      exact ⟨_, .reload running head fits rfl ended tick⟩

/-- Until the backlog is handled the watcher thread or the engine can go on: they never wait
for each other. -/
theorem exists_drain (running : s.phase = .running) :
    s.weight = 0 ∨ ∃ s', Drain p path target reaches host s s' := by
  cases hchannel : s.channel with
  | cons msg channel =>
    refine .inr ?_
    cases msg with
    | reload => exact exists_reload running hchannel
    | error e => exact ⟨_, .error running hchannel⟩
  | nil =>
    cases hsending : s.sending with
    | some msg => exact .inr ⟨_, .send hsending (by rw [hchannel]; decide)⟩
    | none =>
      cases hbatches : s.batches with
      | cons batch batches => exact .inr ⟨_, .take hsending hbatches⟩
      | nil => exact .inl (by simp [weight, hchannel, hsending, hbatches])

/-- Whatever the watcher thread and the engine do in whatever order, they handle the backlog in
so many steps, and until it is handled one of them can go on. -/
theorem backlog_drains {n : ℕ} (running : s.phase = .running)
    (h : Drains p path target reaches host n s s') : n + s'.weight ≤ s.weight ∧
      (s'.weight = 0 ∨ ∃ s'', Drain p path target reaches host s' s'') := by
  induction h with
  | done s => exact ⟨Nat.le_of_eq (Nat.zero_add _), exists_drain running⟩
  | step first _ ih =>
    obtain ⟨less, more⟩ := ih (first.phase.trans running)
    have := first.weight_lt
    exact ⟨by omega, more⟩

/-- A batch of errors and a queued message: one step leaves three more. -/
theorem backlog_drains_error : ∃ s s' : Watched,
    Drains (.ofFile Node.oneAddressText (oneAddressFile (some receiveLimitEntry))) "config.toml"
      "config.toml" RollingWindow.reachesExactly .little 1 s s' ∧ s.weight = 4 ∧
    1 + s'.weight ≤ 4 := by
  obtain ⟨node, -⟩ := Node.limited_reachable Node.oneAddressText "config.toml" .little
  let s : Watched := ⟨node, .running, .error "", true, false, [.error ["overflow"]], none,
    [.error "overflow"], false⟩
  have step : Drains (.ofFile Node.oneAddressText (oneAddressFile (some receiveLimitEntry)))
      "config.toml" "config.toml" RollingWindow.reachesExactly .little 1 s _ :=
    .step (.error rfl rfl) (.done _)
  exact ⟨s, _, step, rfl, (backlog_drains rfl step).1⟩

/-! ### All quiet -/

/-- Nothing is under way. -/
structure Quiet (s : Watched) : Prop where
  unreported : s.unreported = false
  batches : s.batches = []
  sending : s.sending = none
  channel : s.channel = []

/-- Once nothing is under way any more, whatever was saved, delivered and asked for before and
in whatever order, the engine has read the file since, and what it runs is what the file says,
unless the status shows that the last reload or the watcher has failed. -/
theorem saves_are_noticed (h : s.Reachable p path target reaches host)
    (running : s.phase = .running) (quiet : s.Quiet)
    (healthy : s.node.daemon.configWatcherHealthy = true) :
    s.due = false ∧ ∀ bytes, s.file = .ok bytes → s.node.daemon.lastReloadOk = true →
      p.parseConfig bytes path = .ok s.node.daemon.engine.config := by
  have still : ¬ s.Busy target := by
    intro busy
    rcases busy with unreported | ⟨b, hb, -⟩ | sending | channel
    · rw [quiet.unreported] at unreported
      cases unreported
    · rw [quiet.batches] at hb
      cases hb
    · rw [quiet.sending] at sending
      cases sending
    · exact channel quiet.channel
  have due : s.due = false := by
    by_contra due
    rcases h.alert.alert running (Bool.not_eq_false _ ▸ due) with busy | failed
    · exact still busy
    · rw [healthy] at failed
      cases failed
  refine ⟨due, fun bytes hfile reloaded => ?_⟩
  rcases h.alert.read due bytes hfile with same | failed
  · rw [← same]
    exact h.node.sound.parsed
  · rw [reloaded] at failed
    cases failed

/-- A limit that is taken out of the file: the save is reported, the report handled, and the
daemon runs without it. -/
theorem saves_are_noticed_lifted : ∃ s : Watched,
    s.Reachable Node.twoFiles "config.toml" "config.toml" RollingWindow.reachesExactly .little ∧
    s.Quiet ∧ s.node.daemon.engine.config = oneAddress {} := by
  obtain ⟨parsed, parsed'⟩ := Node.twoFiles_parseConfig "config.toml"
  let bytes := Node.oneAddressText.toByteArray
  let bytes' := Node.noPolicyText.toByteArray
  let startEnv : StartInputs := ⟨.ok bytes, 0, 0, 1, 0⟩
  have starts : Daemon.Started Node.twoFiles "config.toml" startEnv bytes (oneAddress receiveLimit)
      (indexPlan ⟨some receiveOnly, none⟩) := ⟨rfl, parsed, rfl⟩
  obtain ⟨_, maps, start⟩ := Daemon.start_runs starts Dataplane.empty
  let node : Node :=
    ⟨.started startEnv bytes (oneAddress receiveLimit) (indexPlan ⟨some receiveOnly, none⟩), maps⟩
  let Reaches := Reachable Node.twoFiles "config.toml" "config.toml" RollingWindow.reachesExactly
    .little
  have booted : Reaches ⟨node, .booting, .ok bytes, false, false, [], none, [], false⟩ :=
    @Reachable.start _ _ _ _ _ startEnv _ node start
  have watched : Reaches ⟨node, .watched, .ok bytes, true, false, [], none, [], false⟩ :=
    booted.step (.watch rfl)
  have live : Reaches ⟨node, .running, .ok bytes, true, false, [], none, [], false⟩ := by
    have compared := watched.step (.compare rfl)
    have same : movedOn ⟨node, .watched, .ok bytes, true, false, [], none, [], false⟩ = false := by
      simp [movedOn, node, Daemon.started]
    rwa [same] at compared
  have saved : Reaches ⟨node, .running, .ok bytes', true, true, [], none, [], true⟩ :=
    live.step (.save bytes')
  let batch : Batch := .ok [⟨.modifyData, [some "config.toml"]⟩]
  have told : Reaches ⟨node, .running, .ok bytes', true, false, [batch], none, [], true⟩ :=
    saved.step (.deliver batch rfl)
  have taken : Reaches ⟨node, .running, .ok bytes', true, false, [], some .reload, [], true⟩ := by
    have step := told.step (.drain (.take rfl rfl))
    exact step
  have sent : Reaches ⟨node, .running, .ok bytes', true, false, [], none, [.reload], true⟩ := by
    have step := taken.step (.drain (.send rfl (Nat.succ_pos 7)))
    exact step
  -- the engine reads the new file
  let env : ReloadInputs := ⟨.ok bytes', 60, 3, [], [⟨32, 1⟩], [⟨32, 1⟩]⟩
  have unlimited : ∀ flow, ¬ node.daemon.engine.limiter.Limited flow := by
    intro flow limited
    obtain ⟨state, hstate, -⟩ := limited
    by_cases own : flow = (1, dirRx)
    · subst own
      cases hstate
    · cases ((indexPlan_knowsOnly receiveOnly) flow own).2.2.symm.trans hstate
  have fits : env.Fits Node.twoFiles "config.toml" node.daemon := by
    refine ⟨⟨List.nodup_nil, fun flow => ?_⟩, ⟨List.nodup_singleton _, fun _ => Iff.rfl⟩, ?_⟩
    · exact iff_of_false List.not_mem_nil (unlimited flow)
    · intro bytes cfg read known
      obtain rfl := Except.ok.inj read
      obtain rfl := Except.ok.inj (known.symm.trans parsed')
      exact ⟨List.nodup_singleton _, fun _ => Iff.rfl⟩
  obtain ⟨plan, planned⟩ : ∃ plan,
      node.daemon.engine.limiter.planReload (oneAddress {}) env.now env.limited = .ok plan :=
    ⟨_, rfl⟩
  have checked : checkReload node.daemon.startup node.daemon.engine.config (oneAddress {})
      env.oldPrefixes env.newPrefixes = .ok () := Node.noPolicy_checked
  have offers : Daemon.Offers Node.twoFiles "config.toml" env node.daemon bytes' (oneAddress {}) :=
    ⟨rfl, Node.noPolicyText_bytes_ne, parsed'⟩
  obtain ⟨evs, maps', run⟩ :=
    @Daemon.reloadFile_runs _ MapOp.exec _ _ _ _ _ _ _ offers ⟨checked, planned⟩ maps
  let mid : Node := ⟨node.daemon.applied env bytes' (oneAddress {}) plan, maps'⟩
  obtain ⟨last, tick⟩ : ∃ last, mid.Collects RollingWindow.reachesExactly .little last :=
    exists_collects mid
  have same := collect_sameStatus tick
  have reached : Reaches ⟨last, .running, .ok bytes', true, false, [], none, [], false⟩ :=
    sent.step (.drain (@Drain.reload _ _ _ _ _ _ _ mid last env evs rfl rfl fits rfl run.amid tick))
  have quiet : Quiet ⟨last, .running, .ok bytes', true, false, [], none, [], false⟩ :=
    ⟨rfl, rfl, rfl, rfl⟩
  have healthy : last.daemon.configWatcherHealthy = true :=
    same.healthy.trans (Daemon.applied_configWatcherHealthy ..)
  have reloaded : last.daemon.lastReloadOk = true :=
    same.reloadOk.trans (Daemon.applied_lastReloadOk ..)
  obtain ⟨-, runs⟩ := saves_are_noticed reached rfl quiet healthy
  exact ⟨_, reached, quiet, Except.ok.inj ((runs bytes' rfl reloaded).symm.trans parsed')⟩

end Watched

end VmWatcher

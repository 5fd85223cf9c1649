import VmWatcher.Core.Proofs.Emitted

/-!
# Reconciling a reload

What an accepted configuration does to each flow when it is applied
(`reload_reconciles`), and that applying it once more does nothing
(`reapplying_changes_nothing`).
-/

namespace VmWatcher

theorem RollingWindow.fit_eq {windowSecs tickSecs : ℕ} {w : RollingWindow} :
    w.fit windowSecs tickSecs = if windowSecs = w.windowSecs then w else .new windowSecs tickSecs :=
  ite_not ..

theorem RollingWindow.fit_fit {windowSecs tickSecs : ℕ} {w : RollingWindow} :
    (w.fit windowSecs tickSecs).fit windowSecs tickSecs = w.fit windowSecs tickSecs := by
  rw [fit_eq, fit_eq]
  by_cases same : windowSecs = w.windowSecs
  · simp [same]
  · simp [same]

/-- A LIMITED flow remembers the policy it was limited with, also when its state was
stashed by a tick. -/
def FlowView.Remembers (v : FlowView) : Prop :=
  ∀ s, v.state = some s ∨ v.expired = some s → s.phase = .limited → ∃ p, s.applied = some p

namespace FlowView

variable {policy : Option DirPolicy} {np : DirPolicy} {tickSecs delta now : ℕ} {v : FlowView}
variable {reaches : RollingWindow → ℕ → Bool} {flow : FlowKey}

theorem Remembers.clearExpired (h : v.Remembers) : ({ v with expired := none } : FlowView).Remembers := by
  intro s hs hphase
  rcases hs with hs | hs
  · exact h s (Or.inl hs) hphase
  · cases hs

theorem Remembers.eval (h : v.Remembers) : (v.eval reaches flow np tickSecs delta now).1.Remembers := by
  have known : (v.state.getD {}).phase = .limited → ∃ p, (v.state.getD {}).applied = some p := by
    intro hphase
    cases hs : v.state with
    | none =>
      rw [hs] at hphase
      cases hphase
    | some s =>
      rw [hs] at hphase
      exact h s (Or.inl hs) hphase
  unfold FlowView.eval
  dsimp only
  cases hphase : (v.state.getD {}).phase with
  | normal =>
    dsimp only
    split
    · rintro s (hs | hs) hlimited
      · obtain rfl := Option.some.inj hs
        exact ⟨np, rfl⟩
      · exact h s (Or.inr hs) hlimited
    · rintro s (hs | hs) hlimited
      · obtain rfl := Option.some.inj hs
        exact known hlimited
      · exact h s (Or.inr hs) hlimited
  | limited =>
    dsimp only
    split
    · rintro s (hs | hs) hlimited
      · obtain rfl := Option.some.inj hs
        cases hlimited
      · obtain rfl := Option.some.inj hs
        exact known hlimited
    · rintro s (hs | hs) hlimited
      · obtain rfl := Option.some.inj hs
        exact known hlimited
      · exact h s (Or.inr hs) hlimited

/-- A flow that is LIMITED after a reload enforces its policy, and its time is not over. -/
theorem reload_limited {s : DirState} (hs : (v.reload policy tickSecs now).state = some s)
    (hphase : s.phase = .limited) :
    ∃ p, policy = some p ∧ s.Enforces p ∧ now < s.limitedUntil := by
  cases policy with
  | none => cases hs
  | some np =>
    unfold FlowView.reload at hs
    dsimp only at hs
    cases hlimited : v.state.filter (·.phase = .limited) with
    | none =>
      rw [hlimited] at hs
      have normal := Option.filter_eq_none_iff.mp hlimited s hs
      simp [hphase] at normal
    | some prev =>
      rw [hlimited] at hs
      dsimp only at hs
      by_cases hover : u64SaturatingAdd prev.limitedSince np.limitDurationSecs ≤ now
      · rw [if_pos hover] at hs
        obtain rfl := Option.some.inj hs
        cases hphase
      · rw [if_neg hover] at hs
        obtain rfl := Option.some.inj hs
        exact ⟨np, rfl, ⟨hphase, rfl, rfl⟩, Nat.not_le.mp hover⟩

theorem reload_ended {s : DirState} (hs : v.state = some s) (hphase : s.phase = .limited)
    (hover : u64SaturatingAdd s.limitedSince np.limitDurationSecs ≤ now) :
    v.reload (some np) tickSecs now =
      { v with
          window := v.window.map fun w => w.reset.fit np.windowSecs tickSecs
          state := some {} } := by
  simp [FlowView.reload, hs, Option.filter, hphase, hover]

theorem reload_stays {s : DirState} (hs : v.state = some s) (hphase : s.phase = .limited)
    (early : now < u64SaturatingAdd s.limitedSince np.limitDurationSecs) :
    v.reload (some np) tickSecs now =
      { v with
          window := v.window.map (RollingWindow.fit np.windowSecs tickSecs)
          state := some { s with
            limitedUntil := u64SaturatingAdd s.limitedSince np.limitDurationSecs
            applied := some np } } := by
  simp [FlowView.reload, hs, Option.filter, hphase, Nat.not_le.mpr early]

theorem reload_normal (normal : ∀ s, v.state = some s → s.phase ≠ .limited) :
    v.reload (some np) tickSecs now =
      { v with window := v.window.map (RollingWindow.fit np.windowSecs tickSecs) } := by
  have none_limited : v.state.filter (·.phase = .limited) = none := by
    rw [Option.filter_eq_none_iff]
    intro s hs
    simp [normal s hs]
  unfold FlowView.reload
  rw [none_limited]

/-- A second reload to the same policy at the same time changes nothing. -/
theorem reload_reload :
    (v.reload policy tickSecs now).reload policy tickSecs now = v.reload policy tickSecs now := by
  cases policy with
  | none => rfl
  | some np =>
    by_cases limited : ∃ s, v.state = some s ∧ s.phase = .limited
    · obtain ⟨s, hs, hphase⟩ := limited
      by_cases hover : u64SaturatingAdd s.limitedSince np.limitDurationSecs ≤ now
      · rw [reload_ended hs hphase hover]
        refine (reload_normal ?_).trans ?_
        · rintro s' hs' hlimited
          obtain rfl := Option.some.inj hs'
          cases hlimited
        · cases v.window <;> simp [RollingWindow.fit_fit]
      · have early := Nat.not_le.mp hover
        rw [reload_stays hs hphase early]
        refine (reload_stays (s := { s with
          limitedUntil := u64SaturatingAdd s.limitedSince np.limitDurationSecs
          applied := some np }) rfl hphase early).trans ?_
        cases v.window <;> simp [RollingWindow.fit_fit]
    · have normal : ∀ s, v.state = some s → s.phase ≠ .limited :=
        fun s hs hphase => limited ⟨s, hs, hphase⟩
      rw [reload_normal normal, reload_normal (by exact normal)]
      cases v.window <;> simp [RollingWindow.fit_fit]

theorem reload_expired : (v.reload policy tickSecs now).expired = v.expired := by
  unfold FlowView.reload
  cases policy with
  | none => rfl
  | some np =>
    dsimp only
    split
    · rfl
    · split <;> rfl

theorem Remembers.reload (h : v.Remembers) : (v.reload policy tickSecs now).Remembers := by
  rintro s (hs | hs) hphase
  · obtain ⟨p, -, enforces, -⟩ := reload_limited hs hphase
    exact ⟨p, enforces.applied⟩
  · rw [reload_expired] at hs
    exact h s (Or.inr hs) hphase

theorem Remembers.revert (h : v.Remembers) (action : LimitAction) : (v.revert action).Remembers := by
  cases action with
  | install ipv4 direction rateBps burstBytes algorithm windowNs =>
    rintro s (hs | hs) hphase
    · obtain ⟨_, -, rfl⟩ := Option.map_eq_some_iff.mp hs
      cases hphase
    · exact h s (Or.inr hs) hphase
  | remove ipv4 direction =>
    cases he : v.expired with
    | none =>
      simp only [FlowView.revert, he]
      exact h
    | some prev =>
      simp only [FlowView.revert, he]
      rintro s (hs | hs) hphase
      · exact h s (Or.inr (he.trans hs)) hphase
      · cases hs

end FlowView

namespace Limiter

variable {reaches : RollingWindow → ℕ → Bool} {accepts : ValidatedConfig → Prop} {late : Bool}
variable {l : Limiter} {pending : List LimitAction} {cfg : ValidatedConfig} {now : ℕ}
variable {limited : List FlowKey} {plan : ReloadPlan}

theorem knowsApplied_of_remembers (h : ∀ flow, (l.view flow).Remembers) : l.KnowsApplied :=
  fun flow s hs => h flow s (Or.inl hs)

/-- Every state a run can reach, with however late a revert, remembers what it applied. -/
theorem Reachable.remembers (h : Reachable reaches accepts late l pending) (flow : FlowKey) :
    (l.view flow).Remembers := by
  induction h generalizing flow with
  | new tickSecs => rintro s (hs | hs) <;> cases hs
  | reload _ _ visits hplan ih =>
    rw [commitReload_view (knowsApplied_of_remembers ih) visits hplan]
    exact (ih flow).reload
  | @tick l pending now totals ips _ visits ih =>
    have hview := congrArg Prod.fst (tick_flow reaches now totals l ips visits.nodup flow)
    change (l.tick reaches now totals ips).1.view flow = _ at hview
    rw [hview]
    have cleared : (({ l with expired := Table.empty } : Limiter).view flow).Remembers :=
      (ih flow).clearExpired
    split
    · unfold flowTick
      split
      · exact cleared
      · exact cleared.eval
    · exact (ih flow).clearExpired
  | @revert l pending action _ _ ih =>
    rw [view_revertFailedAction]
    split
    · exact (ih flow).revert action
    · exact ih flow

/-! ### One flow -/

/-- The LIMITED state `s` ends under a new policy: there is none, or the new duration,
counted from the original start, is over. -/
def Ends (policy : Option DirPolicy) (now : ℕ) (s : DirState) : Prop :=
  ∀ np, policy = some np → u64SaturatingAdd s.limitedSince np.limitDurationSecs ≤ now

/-- What applying a configuration does to one flow: `l'` is the limiter after it and
`actions` is what the runtime was asked to do. -/
structure Reconciled (l l' : Limiter) (actions : List LimitAction) (now : ℕ) (flow : FlowKey) :
    Prop where
  ended : ∀ s, l.states flow = some s → s.phase = .limited → Ends (l'.dirPolicy flow) now s →
    actions.filter (·.flow = flow) = [.remove flow.1 flow.2] ∧
      l'.states flow = (l'.dirPolicy flow).map (fun _ => {}) ∧
      l'.windows flow = (l'.dirPolicy flow).bind fun np => (l.windows flow).map fun w =>
        if np.windowSecs = w.windowSecs then w.reset else .new np.windowSecs l.tickSecs
  stays : ∀ s np, l.states flow = some s → s.phase = .limited → l'.dirPolicy flow = some np →
    now < u64SaturatingAdd s.limitedSince np.limitDurationSecs →
      ∃ applied, s.applied = some applied ∧
        actions.filter (·.flow = flow) =
          (if np.limitBps = applied.limitBps ∧ np.burstBytes = applied.burstBytes ∧
              np.algorithm = applied.algorithm ∧ np.limitWindowSecs = applied.limitWindowSecs
            then [] else [.installOf flow np]) ∧
        l'.states flow = some { s with
          limitedUntil := u64SaturatingAdd s.limitedSince np.limitDurationSecs
          applied := some np }
  normal : ¬ l.Limited flow → actions.filter (·.flow = flow) = [] ∧
    l'.states flow = (l.states flow).filter fun _ => (l'.dirPolicy flow).isSome
  unpoliced : l'.dirPolicy flow = none → l'.windows flow = none ∧ l'.states flow = none
  window : ∀ np, l'.dirPolicy flow = some np →
    (∀ s, l.states flow = some s → s.phase = .limited → ¬ Ends (l'.dirPolicy flow) now s) →
      l'.windows flow = (l.windows flow).map fun w =>
        if np.windowSecs = w.windowSecs then w else .new np.windowSecs l.tickSecs

theorem not_reinstalls {np applied : DirPolicy} : reinstalls np applied = false ↔
    np.limitBps = applied.limitBps ∧ np.burstBytes = applied.burstBytes ∧
      np.algorithm = applied.algorithm ∧ np.limitWindowSecs = applied.limitWindowSecs := by
  simp [reinstalls, and_assoc]

/-- The actions of a plan for a LIMITED flow. -/
theorem planReload_limited (visits : Visits limited l.Limited)
    (hplan : l.planReload cfg now limited = .ok plan) {flow : FlowKey} {s : DirState}
    {applied : DirPolicy} (hs : l.states flow = some s) (hphase : s.phase = .limited)
    (happlied : s.applied = some applied) :
    plan.actions.filter (·.flow = flow) =
      match ((l.commitReload plan).dirPolicy flow).filter
          fun np => now < u64SaturatingAdd s.limitedSince np.limitDurationSecs with
      | none => [.remove flow.1 flow.2]
      | some np => if reinstalls np applied then [.installOf flow np] else [] := by
  have hmem : flow ∈ limited := (visits.mem_iff flow).mpr ⟨s, hs, hphase⟩
  rw [planReload_flow visits.nodup hplan flow, if_pos hmem, planOne_eq hs happlied,
    commitReload_dirPolicy]
  cases (lookupDir plan.newRanges plan.newOverrides flow).filter
      fun np => decide (now < u64SaturatingAdd s.limitedSince np.limitDurationSecs) with
  | none => rfl
  | some np => rfl

/-- A flow that is not LIMITED gets no action. -/
theorem planReload_normal (visits : Visits limited l.Limited)
    (hplan : l.planReload cfg now limited = .ok plan) {flow : FlowKey}
    (normal : ¬ l.Limited flow) : plan.actions.filter (·.flow = flow) = [] := by
  rw [planReload_flow visits.nodup hplan flow]
  exact if_neg fun hmem => normal ((visits.mem_iff flow).mp hmem)

theorem planReload_reconciled (known : l.KnowsApplied) (visits : Visits limited l.Limited)
    (hplan : l.planReload cfg now limited = .ok plan) (flow : FlowKey) :
    Reconciled l (l.commitReload plan) plan.actions now flow := by
  have hview : (l.commitReload plan).view flow = (l.view flow).reload
      ((l.commitReload plan).dirPolicy flow) l.tickSecs now := by
    rw [commitReload_view known visits hplan flow, commitReload_dirPolicy]
  have hstate : (l.commitReload plan).states flow = _ := congrArg FlowView.state hview
  have hwindow : (l.commitReload plan).windows flow = _ := congrArg FlowView.window hview
  constructor
  case ended =>
    intro s hs hphase ends
    obtain ⟨applied, happlied⟩ := known flow s hs hphase
    rw [planReload_limited visits hplan hs hphase happlied, hstate, hwindow]
    cases hpolicy : (l.commitReload plan).dirPolicy flow with
    | none => exact ⟨rfl, rfl, rfl⟩
    | some np =>
      have hover := ends np hpolicy
      have still : ¬ now < u64SaturatingAdd s.limitedSince np.limitDurationSecs :=
        Nat.not_lt.mpr hover
      rw [FlowView.reload_ended hs hphase hover]
      refine ⟨by simp [Option.filter, still], rfl, ?_⟩
      exact congrArg (fun f => (l.windows flow).map f) (funext fun w => RollingWindow.fit_eq)
  case stays =>
    intro s np hs hphase hpolicy early
    obtain ⟨applied, happlied⟩ := known flow s hs hphase
    refine ⟨applied, happlied, ?_, ?_⟩
    · rw [planReload_limited visits hplan hs hphase happlied, hpolicy]
      simp only [Option.filter, early, decide_true, if_true]
      cases changed : reinstalls np applied with
      | false => exact (if_pos (not_reinstalls.mp changed)).symm
      | true =>
        refine (if_neg fun same => ?_).symm
        rw [not_reinstalls.mpr same] at changed
        cases changed
    · rw [hstate, hpolicy, FlowView.reload_stays hs hphase early]
  case normal =>
    intro normal
    refine ⟨planReload_normal visits hplan normal, ?_⟩
    rw [hstate]
    cases (l.commitReload plan).dirPolicy flow with
    | none => cases hs : l.states flow <;> simp [FlowView.reload, Option.filter]
    | some np =>
      rw [FlowView.reload_normal fun s hs hphase => normal ⟨s, hs, hphase⟩]
      cases hs : l.states flow <;> simp [view, Option.filter, hs]
  case unpoliced =>
    intro hpolicy
    rw [hstate, hwindow, hpolicy]
    exact ⟨rfl, rfl⟩
  case window =>
    intro np hpolicy notEnded
    have fits : ∀ w : Option RollingWindow, w.map (RollingWindow.fit np.windowSecs l.tickSecs) =
        w.map fun w => if np.windowSecs = w.windowSecs then w else .new np.windowSecs l.tickSecs :=
      fun w => congrArg (fun f => w.map f) (funext fun w => RollingWindow.fit_eq)
    rw [hwindow, hpolicy]
    by_cases hlimited : l.Limited flow
    · obtain ⟨s, hs, hphase⟩ := hlimited
      have early : now < u64SaturatingAdd s.limitedSince np.limitDurationSecs := by
        by_contra hover
        apply notEnded s hs hphase
        intro np' hnp'
        obtain rfl := Option.some.inj (hpolicy.symm.trans hnp')
        exact Nat.not_lt.mp hover
      rw [FlowView.reload_stays hs hphase early]
      exact fits _
    · rw [FlowView.reload_normal fun s hs hphase => hlimited ⟨s, hs, hphase⟩]
      exact fits _

theorem planReload_ok {index : List PolicyRange × Table UInt32 EffectivePolicy}
    (h : buildIndex cfg = .ok index) (now : ℕ) (limited : List FlowKey) :
    ∃ plan, l.planReload cfg now limited = .ok plan := by
  unfold planReload
  rw [h]
  exact ⟨_, rfl⟩

/-- A plan for an accepted configuration is never refused. -/
theorem planReload_accepted (accepted : cfg.Accepted) (l : Limiter) (now : ℕ)
    (limited : List FlowKey) : ∃ plan, l.planReload cfg now limited = .ok plan := by
  obtain ⟨index, hindex⟩ := accepted.buildIndex_ok
  exact planReload_ok hindex now limited

/-- Planning and committing an accepted configuration in any state that can be reached:
the plan is made, the new index is that of the configuration, every flow is reconciled
with it, and the baselines of the addresses it covers survive. -/
theorem reload_reconciles (reached : Reachable reaches accepts late l pending)
    (accepted : cfg.Accepted) (now : ℕ) (visits : Visits limited l.Limited) :
    ∃ plan, l.planReload cfg now limited = .ok plan ∧
      let l' := l.commitReload plan
      buildIndex cfg = .ok (l'.ranges, l'.overrides) ∧
        (∀ flow, Reconciled l l' plan.actions now flow) ∧
        ∀ ip, l'.prevTotals ip = if (l'.effectivePolicy ip).isSome then l.prevTotals ip else none := by
  obtain ⟨plan, hplan⟩ := planReload_accepted accepted l now limited
  have known := knowsApplied_of_remembers reached.remembers
  obtain ⟨-, hranges, hoverrides⟩ := commitReload_index l plan
  refine ⟨plan, hplan, ?_, planReload_reconciled known visits hplan, ?_⟩
  · rw [hranges, hoverrides]
    exact (planReload_eq hplan).1
  · intro ip
    rw [commitReload_prevTotals]
    cases hip : l.prevTotals ip with
    | none => simp [Table.retain, hip]
    | some totals => simp [Table.retain, hip, Option.filter]

/-- Twice the rate, and three seconds instead of one. -/
def raised : PolicyFields :=
  { receiveLimit with rxLimitBps := some 2000000, limitDurationSecs := some 3 }

def raisedOnly : DirPolicy := { receiveOnly with limitBps := 2000000, limitDurationSecs := 3 }

theorem accepted_raised : (oneAddress raised).Accepted := by
  have parsed : (oneAddressFile (some { receiveLimitEntry with
      rxLimit := some "2Mbps", limitDuration := some "3s" })).parse (fun _ => .error "") =
      .ok (oneAddress raised) := rfl
  exact ValidatedConfig.accepted_of_parse parsed

/-- Only one flow is LIMITED. -/
theorem KnowsOnly.visits_limited {flow : FlowKey} (h : l.KnowsOnly flow) (limited : l.Limited flow) :
    Visits [flow] l.Limited := by
  refine ⟨List.nodup_singleton flow, fun f => ⟨?_, ?_⟩⟩
  · intro hf
    exact List.mem_singleton.mp hf ▸ limited
  · intro hf
    by_contra hne
    obtain ⟨s, hs, -⟩ := hf
    rw [(h f (by simpa using hne)).2.2] at hs
    cases hs

theorem limitedRun_limited :
    Reachable RollingWindow.reachesExactly ValidatedConfig.Accepted false
        (limitedRun receiveOnly).1 (limitedRun receiveOnly).2 ∧
      (limitedRun receiveOnly).1.states (1, dirRx) =
        some ⟨.limited, 1, 2, some receiveOnly⟩ ∧
      Visits [(1, dirRx)] (limitedRun receiveOnly).1.Limited := by
  have hs : (limitedRun receiveOnly).1.states (1, dirRx) =
      some ⟨.limited, 1, 2, some receiveOnly⟩ := by rfl
  obtain ⟨reached, known⟩ := limitedRun_reachable false accepted_receiveLimit rfl
  exact ⟨reached, hs, known.visits_limited ⟨_, hs, rfl⟩⟩

theorem reload_reconciles_raised :
    ∃ plan, (limitedRun receiveOnly).1.planReload (oneAddress raised) 1 [(1, dirRx)] = .ok plan ∧
      plan.actions.filter (·.flow = (1, dirRx)) = [.installOf (1, dirRx) raisedOnly] ∧
      ((limitedRun receiveOnly).1.commitReload plan).states (1, dirRx) =
        some ⟨.limited, 1, 4, some raisedOnly⟩ := by
  obtain ⟨reached, hs, visits⟩ := limitedRun_limited
  obtain ⟨plan, hplan, hindex, hflows, -⟩ := reload_reconciles reached accepted_raised 1 visits
  have index : buildIndex (oneAddress raised) =
      .ok ([⟨1, 1, ⟨some raisedOnly, none⟩⟩], Table.empty) := rfl
  obtain ⟨hranges, hoverrides⟩ := Prod.mk.inj (Except.ok.inj (hindex.symm.trans index))
  have hpolicy : ((limitedRun receiveOnly).1.commitReload plan).dirPolicy (1, dirRx) =
      some raisedOnly := by
    rw [dirPolicy, hranges, hoverrides]
    rfl
  obtain ⟨applied, happlied, hactions, hstate⟩ :=
    (hflows (1, dirRx)).stays _ raisedOnly hs rfl hpolicy (by decide)
  obtain rfl := Option.some.inj happlied
  exact ⟨plan, hplan, hactions, hstate⟩

/-! ### Once more -/

variable (reaches accepts) in
/-- The runs of `Reachable`, with the configuration that was committed last. -/
inductive InForce : Option ValidatedConfig → Limiter → List LimitAction → Prop where
  | new (tickSecs : ℕ) : InForce none (Limiter.new tickSecs) []
  | reload {committed : Option ValidatedConfig} {l : Limiter} {pending : List LimitAction}
      {cfg : ValidatedConfig} {now : ℕ} {limited : List FlowKey} {plan : ReloadPlan} :
      InForce committed l pending → accepts cfg → Visits limited l.Limited →
      l.planReload cfg now limited = .ok plan → InForce (some cfg) (l.commitReload plan) []
  | tick {committed : Option ValidatedConfig} {l : Limiter} {pending : List LimitAction} (now : ℕ)
      (totals : Table UInt32 IpTotals) {ips : List UInt32} :
      InForce committed l pending → Visits ips (l.Evaluated totals) →
      InForce committed (l.tick reaches now totals ips).1 (l.tick reaches now totals ips).2
  | revert {committed : Option ValidatedConfig} {l : Limiter} {pending : List LimitAction}
      {action : LimitAction} : InForce committed l pending → action ∈ pending →
      InForce committed (l.revertFailedAction action) pending

section InForce

variable {committed : Option ValidatedConfig}

theorem InForce.reachable (h : InForce reaches accepts committed l pending) :
    Reachable reaches accepts false l pending := by
  induction h with
  | new tickSecs => exact .new tickSecs
  | reload _ accepted visits hplan ih => exact ih.reload accepted visits hplan
  | tick now totals _ visits ih => exact ih.tick now totals visits
  | revert _ hmem ih => exact ih.revert hmem

/-- The index is the one of the configuration in force. -/
theorem InForce.index (h : InForce reaches accepts committed l pending) :
    ∀ cfg, committed = some cfg → buildIndex cfg = .ok (l.ranges, l.overrides) := by
  induction h with
  | new tickSecs => nofun
  | @reload _ l _ _ _ _ plan _ _ _ hplan _ =>
    intro cfg given
    obtain ⟨⟩ := given
    obtain ⟨-, hranges, hoverrides⟩ := commitReload_index l plan
    rw [hranges, hoverrides]
    exact (planReload_eq hplan).1
  | @tick _ l _ now totals ips _ _ ih =>
    have hindex := tick_sameIndex reaches now totals l ips
    rw [hindex.ranges, hindex.overrides]
    exact ih
  | @revert _ l _ action _ _ ih =>
    have hindex := revertFailedAction_sameIndex l action
    rw [hindex.ranges, hindex.overrides]
    exact ih

end InForce

/-- Planning again under the index in force: a LIMITED flow that enforces its policy is
removed when its time is over and otherwise left alone. -/
theorem planReload_again (index : buildIndex cfg = .ok (l.ranges, l.overrides))
    (visits : Visits limited l.Limited) (hplan : l.planReload cfg now limited = .ok plan)
    {flow : FlowKey} {s : DirState} {p : DirPolicy} (hs : l.states flow = some s)
    (hpolicy : l.dirPolicy flow = some p) (enforces : s.Enforces p) :
    plan.actions.filter (·.flow = flow) =
      if s.limitedUntil ≤ now then [.remove flow.1 flow.2] else [] := by
  have same : (l.commitReload plan).dirPolicy flow = some p := by
    rw [commitReload_dirPolicy, ← hpolicy]
    obtain ⟨hranges, hoverrides⟩ :=
      Prod.mk.inj (Except.ok.inj ((planReload_eq hplan).1.symm.trans index))
    rw [hranges, hoverrides]
    rfl
  rw [planReload_limited visits hplan hs enforces.limited enforces.applied, same]
  simp only [Option.filter, ← enforces.limitedUntil]
  by_cases hover : s.limitedUntil ≤ now
  · simp [hover, Nat.not_lt.mpr hover]
  · simp [hover, Nat.not_le.mp hover, not_reinstalls.mpr ⟨rfl, rfl, rfl, rfl⟩]

theorem eq_of_view {l l' : Limiter} (index : l.SameIndex l') (totals : l'.prevTotals = l.prevTotals)
    (views : ∀ flow, l'.view flow = l.view flow) : l' = l := by
  have windows : l'.windows = l.windows := funext fun flow => congrArg FlowView.window (views flow)
  have states : l'.states = l.states := funext fun flow => congrArg FlowView.state (views flow)
  have expired : l'.expired = l.expired := funext fun flow => congrArg FlowView.expired (views flow)
  obtain ⟨tickSecs, ranges, overrides⟩ := index
  cases l
  cases l'
  simp_all

/-- What a reload left of a flow, a second one at the same time leaves as it is. -/
theorem commitReload_again {limited' : List FlowKey} {plan' : ReloadPlan}
    (again : Visits limited' (l.commitReload plan).Limited)
    (known : l.KnowsApplied) (visits : Visits limited l.Limited)
    (hplan : l.planReload cfg now limited = .ok plan)
    (hplan' : (l.commitReload plan).planReload cfg now limited' = .ok plan') :
    plan'.actions = [] ∧ (l.commitReload plan).commitReload plan' = l.commitReload plan := by
  have hview := commitReload_view known visits hplan
  obtain ⟨hsecs, hranges, hoverrides⟩ := commitReload_index l plan
  have index : buildIndex cfg = .ok ((l.commitReload plan).ranges, (l.commitReload plan).overrides) := by
    rw [hranges, hoverrides]
    exact (planReload_eq hplan).1
  have same : plan'.newRanges = plan.newRanges ∧ plan'.newOverrides = plan.newOverrides :=
    Prod.mk.inj (Except.ok.inj ((planReload_eq hplan').1.symm.trans (planReload_eq hplan).1))
  have enforced : ∀ flow s, (l.commitReload plan).states flow = some s → s.phase = .limited →
      ∃ p, (l.commitReload plan).dirPolicy flow = some p ∧ s.Enforces p ∧ now < s.limitedUntil := by
    intro flow s hs hphase
    rw [commitReload_dirPolicy]
    exact FlowView.reload_limited ((congrArg FlowView.state (hview flow)).symm.trans hs) hphase
  constructor
  · have none_left : ∀ flow, plan'.actions.filter (·.flow = flow) = [] := by
      intro flow
      by_cases hlimited : (l.commitReload plan).Limited flow
      · obtain ⟨s, hs, hphase⟩ := hlimited
        obtain ⟨p, hpolicy, enforces, early⟩ := enforced flow s hs hphase
        rw [planReload_again index again hplan' hs hpolicy enforces, if_neg (Nat.not_le.mpr early)]
      · exact planReload_normal again hplan' hlimited
    rw [List.eq_nil_iff_forall_not_mem]
    intro action hmem
    have := List.filter_eq_nil_iff.mp (none_left action.flow) action hmem
    simp at this
  · obtain ⟨hsecs', hranges', hoverrides'⟩ := commitReload_index (l.commitReload plan) plan'
    rw [same.1, ← hranges] at hranges'
    rw [same.2, ← hoverrides] at hoverrides'
    refine eq_of_view ⟨hsecs', hranges', hoverrides'⟩ ?_ ?_
    · rw [commitReload_prevTotals (l.commitReload plan) plan']
      unfold effectivePolicy
      rw [hranges', hoverrides', commitReload_prevTotals l plan]
      funext ip
      simp [Table.retain, effectivePolicy]
    · intro flow
      have knows : (l.commitReload plan).KnowsApplied := by
        intro flow s hs hphase
        obtain ⟨p, -, enforces, -⟩ := enforced flow s hs hphase
        exact ⟨p, enforces.applied⟩
      rw [commitReload_view knows again hplan' flow, same.1, same.2, hsecs, hview]
      exact FlowView.reload_reload

/-- The flow is LIMITED and its time is over. -/
def Due (l : Limiter) (now : ℕ) (flow : FlowKey) : Prop :=
  ∃ s, l.states flow = some s ∧ s.phase = .limited ∧ s.limitedUntil ≤ now

theorem InForce.planReload (run : InForce reaches accepts (some cfg) l pending)
    (visits : Visits limited l.Limited) (hplan : l.planReload cfg now limited = .ok plan)
    (flow : FlowKey) :
    (l.Due now flow → plan.actions.filter (·.flow = flow) = [.remove flow.1 flow.2]) ∧
      (¬ l.Due now flow → plan.actions.filter (·.flow = flow) = []) := by
  have hok := run.reachable.ok.1
  have again : ∀ s, l.states flow = some s → s.phase = .limited →
      plan.actions.filter (·.flow = flow) =
        if s.limitedUntil ≤ now then [.remove flow.1 flow.2] else [] := by
    intro s hs hphase
    obtain ⟨p, hpolicy, enforces⟩ := (hok flow).limited s hs hphase
    exact planReload_again (run.index cfg rfl) visits hplan hs hpolicy enforces
  constructor
  · intro h
    obtain ⟨s, hs, hphase, hover⟩ := h
    rw [again s hs hphase, if_pos hover]
  · intro notDue
    by_cases hlimited : l.Limited flow
    · obtain ⟨s, hs, hphase⟩ := hlimited
      rw [again s hs hphase, if_neg fun hover => notDue ⟨s, hs, hphase, hover⟩]
    · exact planReload_normal visits hplan hlimited

/-- Applying an accepted configuration twice at one time is applying it once, and planning
the configuration in force again removes exactly the flows that are due. -/
theorem reapplying_changes_nothing :
    (∀ late l pending cfg now limited, Reachable reaches accepts late l pending → cfg.Accepted →
      Visits limited l.Limited → ∃ plan, l.planReload cfg now limited = .ok plan ∧
        ∀ limited', Visits limited' (l.commitReload plan).Limited →
          ∃ plan', (l.commitReload plan).planReload cfg now limited' = .ok plan' ∧
            plan'.actions = [] ∧
            (l.commitReload plan).commitReload plan' = l.commitReload plan) ∧
    (∀ l pending cfg now limited, InForce reaches accepts (some cfg) l pending →
      Visits limited l.Limited → ∃ plan, l.planReload cfg now limited = .ok plan ∧
        ∀ flow, (l.Due now flow →
            plan.actions.filter (·.flow = flow) = [.remove flow.1 flow.2]) ∧
          (¬ l.Due now flow → plan.actions.filter (·.flow = flow) = [])) := by
  constructor
  · intro late l pending cfg now limited reached accepted visits
    obtain ⟨plan, hplan⟩ := planReload_accepted accepted l now limited
    refine ⟨plan, hplan, ?_⟩
    intro limited' again
    obtain ⟨plan', hplan'⟩ := planReload_accepted accepted (l.commitReload plan) now limited'
    have known := knowsApplied_of_remembers reached.remembers
    exact ⟨plan', hplan', commitReload_again again known visits hplan hplan'⟩
  · intro l pending cfg now limited run visits
    obtain ⟨plan, hplan⟩ := planReload_ok (run.index cfg rfl) now limited
    exact ⟨plan, hplan, run.planReload visits hplan⟩

theorem limitedRun_inForce :
    InForce RollingWindow.reachesExactly ValidatedConfig.Accepted
      (some (oneAddress receiveLimit)) (limitedRun receiveOnly).1 (limitedRun receiveOnly).2 := by
  have known := indexPlan_knowsOnly receiveOnly
  have planned : (new 1).planReload (oneAddress receiveLimit) 0 [] =
      .ok (indexPlan ⟨some receiveOnly, none⟩) := rfl
  have started : InForce RollingWindow.reachesExactly ValidatedConfig.Accepted
      (some (oneAddress receiveLimit))
      ((new 1).commitReload (indexPlan ⟨some receiveOnly, none⟩)) [] :=
    .reload (.new 1) accepted_receiveLimit (visits_new 1) planned
  have next : (baselineRun receiveOnly).1.KnowsOnly (1, dirRx) :=
    known.tick 0 _ (List.nodup_singleton 1)
  exact (started.tick 0 _ (known.visits {})).tick 1 _ (next.visits { rxBytes := 125000 })

theorem reapplying_changes_nothing_limited :
    (∃ plan, (limitedRun receiveOnly).1.planReload (oneAddress raised) 1 [(1, dirRx)] = .ok plan ∧
      ∀ limited', Visits limited' ((limitedRun receiveOnly).1.commitReload plan).Limited →
        ∃ plan', ((limitedRun receiveOnly).1.commitReload plan).planReload (oneAddress raised) 1
            limited' = .ok plan' ∧
          ((limitedRun receiveOnly).1.commitReload plan).commitReload plan' =
            (limitedRun receiveOnly).1.commitReload plan) ∧
    ∃ plan, (limitedRun receiveOnly).1.planReload (oneAddress receiveLimit) 2 [(1, dirRx)] = .ok plan ∧
      plan.actions.filter (·.flow = (1, dirRx)) = [.remove 1 dirRx] := by
  obtain ⟨reached, hs, visits⟩ := limitedRun_limited
  obtain ⟨twice, again⟩ :=
    @reapplying_changes_nothing RollingWindow.reachesExactly ValidatedConfig.Accepted
  constructor
  · obtain ⟨plan, hplan, rest⟩ := twice false _ _ _ 1 _ reached accepted_raised visits
    refine ⟨plan, hplan, ?_⟩
    intro limited' visits'
    obtain ⟨plan', hplan', -, same⟩ := rest limited' visits'
    exact ⟨plan', hplan', same⟩
  · obtain ⟨plan, hplan, rest⟩ := again _ _ _ 2 _ limitedRun_inForce visits
    exact ⟨plan, hplan, (rest (1, dirRx)).1 ⟨_, hs, rfl, by decide⟩⟩

end Limiter

end VmWatcher

import VmWatcher.Core.Proofs.Tick

/-!
# A reload, flow by flow

What a reload plan asks the runtime to do for a flow, and what committing it leaves of
the flow, depend on that flow's own entries and its policy under the new configuration
(`planReload_flow`, `commitReload_view`).
-/

namespace VmWatcher

/-- A window as a commit keeps it: a changed length restarts accumulation. -/
def RollingWindow.fit (windowSecs tickSecs : ℕ) (w : RollingWindow) : RollingWindow :=
  if windowSecs ≠ w.windowSecs then w.resize windowSecs tickSecs else w

namespace Limiter

/-! ### The plan -/

/-- What the visit of one LIMITED flow adds to the plan. -/
def planOne (newRanges : List PolicyRange) (newOverrides : Table UInt32 EffectivePolicy)
    (now : ℕ) (l : Limiter) (flow : FlowKey) : PlanAcc :=
  planFlow newRanges newOverrides now l {} flow

section Plan

variable {newRanges : List PolicyRange} {newOverrides : Table UInt32 EffectivePolicy}
variable {now : ℕ} {l : Limiter}

theorem planFlow_eq (acc : PlanAcc) (flow : FlowKey) :
    planFlow newRanges newOverrides now l acc flow =
      let one := planOne newRanges newOverrides now l flow
      { removes := acc.removes ++ one.removes
        installs := acc.installs ++ one.installs
        flowResets := acc.flowResets ++ one.flowResets
        flowUpdates := acc.flowUpdates ++ one.flowUpdates } := by
  unfold planOne planFlow
  cases l.states flow with
  | none => simp
  | some s =>
    cases happlied : s.applied with
    | none => simp [happlied]
    | some applied =>
      simp only [happlied]
      cases lookupDir newRanges newOverrides flow with
      | none => simp
      | some np =>
        by_cases hover : u64SaturatingAdd s.limitedSince np.limitDurationSecs ≤ now
        · simp [hover]
        · by_cases changed : reinstalls np applied = true
          · simp [hover, changed]
          · simp [hover, changed]

theorem foldl_planFlow (flows : List FlowKey) (acc : PlanAcc) :
    flows.foldl (planFlow newRanges newOverrides now l) acc =
      let one := planOne newRanges newOverrides now l
      { removes := acc.removes ++ flows.flatMap fun flow => (one flow).removes
        installs := acc.installs ++ flows.flatMap fun flow => (one flow).installs
        flowResets := acc.flowResets ++ flows.flatMap fun flow => (one flow).flowResets
        flowUpdates := acc.flowUpdates ++ flows.flatMap fun flow => (one flow).flowUpdates } := by
  induction flows generalizing acc with
  | nil => simp
  | cons flow flows ih =>
    rw [List.foldl_cons, ih, planFlow_eq]
    simp [List.append_assoc]

/-- The visit of a LIMITED flow: it is dropped when it has no policy any more or its
re-anchored time is over, and otherwise updated and, where needed, installed anew. -/
theorem planOne_eq {flow : FlowKey} {s : DirState} {applied : DirPolicy}
    (hs : l.states flow = some s) (happlied : s.applied = some applied) :
    planOne newRanges newOverrides now l flow =
      match (lookupDir newRanges newOverrides flow).filter
          fun np => now < u64SaturatingAdd s.limitedSince np.limitDurationSecs with
      | none => { removes := [.remove flow.1 flow.2], flowResets := [flow] }
      | some np =>
        { installs := if reinstalls np applied then [.installOf flow np] else []
          flowUpdates := [(flow, u64SaturatingAdd s.limitedSince np.limitDurationSecs, np)] } := by
  unfold planOne planFlow
  rw [hs]
  dsimp only
  rw [happlied]
  cases lookupDir newRanges newOverrides flow with
  | none => rfl
  | some np =>
    by_cases h : u64SaturatingAdd s.limitedSince np.limitDurationSecs ≤ now
    · simp [h, Option.filter, Nat.not_lt.mpr h]
    · simp [h, Option.filter, Nat.not_le.mp h]

/-- A visit only adds what concerns its own flow. -/
theorem planOne_own (flow : FlowKey) :
    (∀ a ∈ (planOne newRanges newOverrides now l flow).removes, a.flow = flow) ∧
      (∀ a ∈ (planOne newRanges newOverrides now l flow).installs, a.flow = flow) ∧
      (∀ f ∈ (planOne newRanges newOverrides now l flow).flowResets, f = flow) ∧
      ∀ u ∈ (planOne newRanges newOverrides now l flow).flowUpdates, u.1 = flow := by
  cases hs : l.states flow with
  | none => simp [planOne, planFlow, hs]
  | some s =>
    cases happlied : s.applied with
    | none => simp [planOne, planFlow, hs, happlied]
    | some applied =>
      rw [planOne_eq hs happlied]
      split
      · simp [LimitAction.flow]
      · split <;> simp

end Plan

/-- What a plan consists of. -/
theorem planReload_eq {l : Limiter} {cfg : ValidatedConfig} {now : ℕ} {limited : List FlowKey}
    {plan : ReloadPlan} (h : l.planReload cfg now limited = .ok plan) :
    let one := planOne plan.newRanges plan.newOverrides now l
    buildIndex cfg = .ok (plan.newRanges, plan.newOverrides) ∧
      plan.actions = (limited.flatMap fun flow => (one flow).removes) ++
        (limited.flatMap fun flow => (one flow).installs) ∧
      plan.flowResets = (limited.flatMap fun flow => (one flow).flowResets) ∧
      plan.flowUpdates = limited.flatMap fun flow => (one flow).flowUpdates := by
  unfold planReload at h
  cases hindex : buildIndex cfg with
  | error e => simp [hindex, bind, Except.bind] at h
  | ok index =>
    obtain ⟨newRanges, newOverrides⟩ := index
    simp only [hindex, bind, Except.bind, pure, Except.pure, Except.ok.injEq] at h
    subst h
    simp [foldl_planFlow]

/-- The actions a plan has for one flow. -/
theorem planReload_flow {l : Limiter} {cfg : ValidatedConfig} {now : ℕ} {limited : List FlowKey}
    {plan : ReloadPlan} (distinct : limited.Nodup) (h : l.planReload cfg now limited = .ok plan)
    (flow : FlowKey) :
    plan.actions.filter (·.flow = flow) =
      if flow ∈ limited then
        (planOne plan.newRanges plan.newOverrides now l flow).removes ++
          (planOne plan.newRanges plan.newOverrides now l flow).installs
      else [] := by
  obtain ⟨-, hactions, -, -⟩ := planReload_eq h
  rw [hactions, List.filter_append,
    filter_flatMap_of_nodup distinct (fun flow => (planOne_own flow).1),
    filter_flatMap_of_nodup distinct (fun flow => (planOne_own flow).2.1)]
  split <;> rfl

/-- A plan has at most one action for a flow. -/
theorem planReload_single {l : Limiter} {cfg : ValidatedConfig} {now : ℕ} {limited : List FlowKey}
    {plan : ReloadPlan} (distinct : limited.Nodup) (h : l.planReload cfg now limited = .ok plan)
    (flow : FlowKey) : (plan.actions.filter (·.flow = flow)).length ≤ 1 := by
  rw [planReload_flow distinct h]
  split_ifs
  · cases hs : l.states flow with
    | none => simp [planOne, planFlow, hs]
    | some s =>
      cases happlied : s.applied with
      | none => simp [planOne, planFlow, hs, happlied]
      | some applied =>
        rw [planOne_eq hs happlied]
        split
        · simp
        · split <;> simp
  · simp

/-! ### The commit -/

theorem foldl_resetFlow (flows : List FlowKey) (l : Limiter) (flow : FlowKey) :
    (flows.foldl resetFlow l).states flow =
        (if flow ∈ flows then (l.states flow).map fun _ => {} else l.states flow) ∧
      (flows.foldl resetFlow l).windows flow =
        (if flow ∈ flows then (l.windows flow).map RollingWindow.reset else l.windows flow) ∧
      (flows.foldl resetFlow l).expired = l.expired ∧
      l.SameIndex (flows.foldl resetFlow l) := by
  induction flows generalizing l with
  | nil => exact ⟨rfl, rfl, rfl, .refl l⟩
  | cons f flows ih =>
    obtain ⟨hstates, hwindows, hexpired, hindex⟩ := ih (l.resetFlow f)
    refine ⟨hstates.trans ?_, hwindows.trans ?_, hexpired, ?_⟩
    · by_cases hf : flow = f
      · subst hf
        cases hs : l.states flow <;> simp [resetFlow, hs]
      · simp [resetFlow, hf]
    · by_cases hf : flow = f
      · subst hf
        cases hw : l.windows flow <;> simp [resetFlow, hw, RollingWindow.reset]
      · simp [resetFlow, hf]
    · have first : l.SameIndex (l.resetFlow f) := ⟨rfl, rfl, rfl⟩
      exact first.trans hindex

/-- The update of one state in `commit_reload`. -/
def update (s : DirState) (u : FlowKey × ℕ × DirPolicy) : DirState :=
  { s with limitedUntil := u.2.1, applied := some u.2.2 }

theorem foldl_updateFlow (updates : List (FlowKey × ℕ × DirPolicy)) (l : Limiter)
    (flow : FlowKey) :
    (updates.foldl updateFlow l).states flow =
        ((l.states flow).map fun s => (updates.filter (·.1 = flow)).foldl update s) ∧
      (updates.foldl updateFlow l).windows = l.windows ∧
      (updates.foldl updateFlow l).expired = l.expired ∧
      l.SameIndex (updates.foldl updateFlow l) := by
  induction updates generalizing l with
  | nil => exact ⟨by simp, rfl, rfl, .refl l⟩
  | cons u updates ih =>
    obtain ⟨hstates, hwindows, hexpired, hindex⟩ := ih (l.updateFlow u)
    refine ⟨hstates.trans ?_, hwindows, hexpired, ?_⟩
    · by_cases hu : u.1 = flow
      · cases hs : l.states flow <;> simp [updateFlow, update, hu, hs]
      · have hne : ¬flow = u.1 := fun heq => hu heq.symm
        simp [updateFlow, hu, hne]
    · have first : l.SameIndex (l.updateFlow u) := ⟨rfl, rfl, rfl⟩
      exact first.trans hindex

/-- The index after a commit is the one that was planned for. -/
theorem commitReload_index (l : Limiter) (plan : ReloadPlan) :
    (l.commitReload plan).tickSecs = l.tickSecs ∧
      (l.commitReload plan).ranges = plan.newRanges ∧
      (l.commitReload plan).overrides = plan.newOverrides := by
  obtain ⟨-, -, -, hresets⟩ := foldl_resetFlow plan.flowResets (l.switchIndex plan) (0, 0)
  obtain ⟨-, -, -, hupdates⟩ := foldl_updateFlow plan.flowUpdates
    (plan.flowResets.foldl resetFlow (l.switchIndex plan)) (0, 0)
  have hindex := hresets.trans hupdates
  exact ⟨hindex.tickSecs, hindex.ranges, hindex.overrides⟩

theorem commitReload_dirPolicy (l : Limiter) (plan : ReloadPlan) (flow : FlowKey) :
    (l.commitReload plan).dirPolicy flow = lookupDir plan.newRanges plan.newOverrides flow := by
  obtain ⟨-, hranges, hoverrides⟩ := commitReload_index l plan
  unfold dirPolicy
  rw [hranges, hoverrides]

/-- A commit keeps the baselines of the addresses that have a policy afterwards. -/
theorem commitReload_prevTotals (l : Limiter) (plan : ReloadPlan) :
    (l.commitReload plan).prevTotals =
      l.prevTotals.retain fun ip _ => ((l.commitReload plan).effectivePolicy ip).isSome := by
  have resets : ∀ (flows : List FlowKey) (l : Limiter),
      (flows.foldl resetFlow l).prevTotals = l.prevTotals := by
    intro flows
    induction flows with
    | nil => exact fun _ => rfl
    | cons flow flows ih => exact fun l => ih (l.resetFlow flow)
  have updates : ∀ (updates : List (FlowKey × ℕ × DirPolicy)) (l : Limiter),
      (updates.foldl updateFlow l).prevTotals = l.prevTotals := by
    intro updates
    induction updates with
    | nil => exact fun _ => rfl
    | cons update updates ih => exact fun l => ih (l.updateFlow update)
  obtain ⟨-, hranges, hoverrides⟩ := commitReload_index l plan
  unfold effectivePolicy
  rw [hranges, hoverrides]
  exact (updates plan.flowUpdates _).trans (resets plan.flowResets _)

/-- What a commit does to a flow, from what the plan has for it. -/
theorem commitReload_flow (l : Limiter) (plan : ReloadPlan) (flow : FlowKey) :
    (l.commitReload plan).view flow =
      let policy := lookupDir plan.newRanges plan.newOverrides flow
      let state := (if flow ∈ plan.flowResets then (l.states flow).map fun _ => {}
        else l.states flow).map fun s => (plan.flowUpdates.filter (·.1 = flow)).foldl update s
      let window := if flow ∈ plan.flowResets then (l.windows flow).map RollingWindow.reset
        else l.windows flow
      { window := window.bind fun w => policy.map fun np => w.fit np.windowSecs l.tickSecs
        state := state.filter fun s => s.phase = .limited || policy.isSome
        expired := l.expired flow } := by
  obtain ⟨hstates, hwindows, hexpired, hresets⟩ :=
    foldl_resetFlow plan.flowResets (l.switchIndex plan) flow
  set reset := plan.flowResets.foldl resetFlow (l.switchIndex plan) with hreset
  obtain ⟨hstates', hwindows', hexpired', hupdates⟩ := foldl_updateFlow plan.flowUpdates reset flow
  set updated := plan.flowUpdates.foldl updateFlow reset with hupdated
  have hcommit : l.commitReload plan = updated.retain := rfl
  have hindex := hresets.trans hupdates
  have hpolicy : updated.dirPolicy flow = lookupDir plan.newRanges plan.newOverrides flow :=
    hindex.dirPolicy flow
  have hsecs : updated.tickSecs = l.tickSecs := hindex.tickSecs
  have hwindow : ∀ w, updated.retainWindow flow w =
      (lookupDir plan.newRanges plan.newOverrides flow).map fun np =>
        w.fit np.windowSecs l.tickSecs := by
    intro w
    rw [retainWindow, hpolicy, hsecs]
    rfl
  rw [hcommit]
  refine FlowView.ext ?_ ?_ ?_
  · simp only [view, retain, hwindows', hwindows, hwindow]
    rfl
  · simp only [view, retain, Table.retain, hstates', hstates, hpolicy]
    rfl
  · simp only [view, retain, hexpired', hexpired]
    rfl

end Limiter

namespace FlowView

/-- A reload on one flow: `policy` is what the flow resolves to afterwards. -/
def reload (policy : Option DirPolicy) (tickSecs now : ℕ) (v : FlowView) : FlowView :=
  match policy with
  | none => ⟨none, none, v.expired⟩
  | some np =>
    let fit := RollingWindow.fit np.windowSecs tickSecs
    match v.state.filter (·.phase = .limited) with
    | none => { v with window := v.window.map fit }
    | some s =>
      let limitedUntil := u64SaturatingAdd s.limitedSince np.limitDurationSecs
      if limitedUntil ≤ now then
        { v with window := v.window.map fun w => fit w.reset, state := some {} }
      else
        { v with window := v.window.map fit, state := some { s with limitedUntil, applied := some np } }

end FlowView

namespace Limiter

/-- Every LIMITED flow knows the policy it enforces. -/
def KnowsApplied (l : Limiter) : Prop :=
  ∀ flow s, l.states flow = some s → s.phase = .limited → ∃ p, s.applied = some p

/-- A plan resets a flow when it visits it and ends its limit. -/
theorem mem_flowResets {l : Limiter} {plan : ReloadPlan} {now : ℕ} {limited : List FlowKey}
    (hresets : plan.flowResets = limited.flatMap fun flow =>
      (planOne plan.newRanges plan.newOverrides now l flow).flowResets) (flow : FlowKey) :
    flow ∈ plan.flowResets ↔ flow ∈ limited ∧
      flow ∈ (planOne plan.newRanges plan.newOverrides now l flow).flowResets := by
  rw [hresets, List.mem_flatMap]
  constructor
  · intro given
    obtain ⟨f, hf, hmem⟩ := given
    obtain rfl := (planOne_own f).2.2.1 flow hmem
    exact ⟨hf, hmem⟩
  · intro given
    obtain ⟨hf, hmem⟩ := given
    exact ⟨flow, hf, hmem⟩

/-- What planning and committing a reload leaves of a flow. -/
theorem commitReload_view {l : Limiter} {cfg : ValidatedConfig} {now : ℕ}
    {limited : List FlowKey} {plan : ReloadPlan} (known : l.KnowsApplied)
    (visits : Visits limited l.Limited) (h : l.planReload cfg now limited = .ok plan)
    (flow : FlowKey) :
    (l.commitReload plan).view flow = (l.view flow).reload
      (lookupDir plan.newRanges plan.newOverrides flow) l.tickSecs now := by
  obtain ⟨-, -, hresets, hupdates⟩ := planReload_eq h
  have ownUpdates := filter_flatMap_of_nodup visits.nodup
    (f := fun flow => (planOne plan.newRanges plan.newOverrides now l flow).flowUpdates)
    (fun flow => (planOne_own flow).2.2.2) flow
  have memResets := mem_flowResets hresets flow
  rw [commitReload_flow, hupdates, ownUpdates]
  by_cases hlim : flow ∈ limited
  · obtain ⟨s, hs, hphase⟩ := (visits.mem_iff flow).mp hlim
    obtain ⟨applied, happlied⟩ := known flow s hs hphase
    rw [planOne_eq hs happlied] at memResets ⊢
    cases hpolicy : lookupDir plan.newRanges plan.newOverrides flow with
    | none =>
      have hreset : flow ∈ plan.flowResets := memResets.mpr (by simp [hlim, hpolicy])
      simp [FlowView.reload, view, hlim, hreset, hs]
    | some np =>
      by_cases hover : u64SaturatingAdd s.limitedSince np.limitDurationSecs ≤ now
      · have hreset : flow ∈ plan.flowResets :=
          memResets.mpr (by simp [hlim, hpolicy, Option.filter, Nat.not_lt.mpr hover])
        cases hw : l.windows flow <;>
          simp [FlowView.reload, view, hlim, hreset, hs, hw, hphase, Option.filter, hover,
            Nat.not_lt.mpr hover]
      · have hreset : flow ∉ plan.flowResets := fun hmem => by
          have := (memResets.mp hmem).2
          simp [hpolicy, Option.filter, Nat.not_le.mp hover] at this
        cases hw : l.windows flow <;>
          simp [FlowView.reload, view, hlim, hreset, hs, hw, hphase, Option.filter, hover,
            Nat.not_le.mp hover, update]
  · have hreset : flow ∉ plan.flowResets := fun hmem => hlim (memResets.mp hmem).1
    cases hpolicy : lookupDir plan.newRanges plan.newOverrides flow with
    | none =>
      cases hs : l.states flow with
      | none => simp [FlowView.reload, view, hlim, hreset, hs]
      | some s =>
        have hphase : s.phase ≠ .limited := fun h =>
          hlim ((visits.mem_iff flow).mpr ⟨s, hs, h⟩)
        simp [FlowView.reload, view, hlim, hreset, hs, hphase]
    | some np =>
      cases hs : l.states flow with
      | none =>
        cases hw : l.windows flow <;> simp [FlowView.reload, view, hlim, hreset, hs, hw]
      | some s =>
        have hphase : s.phase ≠ .limited := fun h =>
          hlim ((visits.mem_iff flow).mpr ⟨s, hs, h⟩)
        cases hw : l.windows flow <;>
          simp [FlowView.reload, view, hlim, hreset, hs, hw, hphase, Option.filter]

end Limiter

end VmWatcher

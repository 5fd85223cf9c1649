import VmWatcher.Core.Proofs.Emitted

/-!
# Which policy the limiter takes a flow to be limited by

Every action of a tick or a reload takes its flow from the policy it was limited by to
the one it is limited by from now on; a flow without an action keeps its map entry.
-/

namespace VmWatcher

namespace FlowView

/-- The policy a flow is LIMITED by. -/
def enforced (v : FlowView) : Option DirPolicy :=
  v.state.bind fun s => if s.phase = .limited then s.applied else none

variable {reaches : RollingWindow → ℕ → Bool} {flow : FlowKey} {np : DirPolicy}
variable {tickSecs delta now : ℕ} {v v' : FlowView} {policy : Option DirPolicy}

theorem enforced_of_normal (h : (v.state.getD {}).phase = .normal) : v.enforced = none := by
  unfold enforced
  cases hs : v.state with
  | none => rfl
  | some s =>
    rw [hs, Option.getD_some] at h
    simp [h]

theorem Ok.enforced_limited (h : v.Ok policy tickSecs) {s : DirState} (hs : v.state = some s)
    (hphase : s.phase = .limited) : ∃ p, policy = some p ∧ s.Enforces p ∧ v.enforced = some p := by
  obtain ⟨p, hp, enforces⟩ := h.limited s hs hphase
  exact ⟨p, hp, enforces, by simp [enforced, hs, hphase, enforces.applied]⟩

theorem limited_of_enforced (h : v.enforced.isSome) :
    ∃ s, v.state = some s ∧ s.phase = .limited ∧ s.applied = v.enforced := by
  unfold enforced at h ⊢
  cases hs : v.state with
  | none => simp [hs] at h
  | some s =>
    cases hphase : s.phase with
    | normal => simp [hs, hphase] at h
    | limited => exact ⟨s, rfl, hphase, by simp [hphase]⟩

/-- The action takes the flow from what it was limited by before to what it is limited by
afterwards, and its revert takes it back. -/
structure Decides (v v' : FlowView) (action : LimitAction) : Prop where
  enforces : action.policy = v'.enforced.map DirPolicy.installed
  reverts : (v'.revert action).enforced = v.enforced
  remove_limited : action.policy = none → v.enforced.isSome
  install_normal : action.policy ≠ none → v.enforced = none

/-- A tick leaves a flow limited as it was, or decides on one action. -/
theorem eval_decides (h : v.Ok (some np) tickSecs) :
    let r := v.eval reaches flow np tickSecs delta now
    (r.2 = [] ∧ r.1.enforced = v.enforced) ∨ ∃ action, r.2 = [action] ∧ v.Decides r.1 action := by
  intro r
  cases hphase : (v.state.getD {}).phase with
  | normal =>
    have before := enforced_of_normal hphase
    by_cases hit : ((v.window.getD (.new np.windowSecs tickSecs)).add delta).isFull &&
        reaches ((v.window.getD (.new np.windowSecs tickSecs)).add delta) np.triggerBps
    · refine Or.inr ⟨.installOf flow np, ?_, ?_⟩
      · simp only [r, eval, hphase, hit, if_true]
      · simp only [r, eval, hphase, hit, if_true]
        exact ⟨rfl, before.symm, fun none => absurd none (Option.some_ne_none _), fun _ => before⟩
    · refine Or.inl ⟨?_, ?_⟩
      · simp only [r, eval, hphase, hit]
        rfl
      · simp only [r, eval, hphase, hit]
        rw [before]
        exact enforced_of_normal hphase
  | limited =>
    cases hs : v.state with
    | none =>
      rw [hs] at hphase
      cases hphase
    | some s =>
      rw [hs, Option.getD_some] at hphase
      obtain ⟨p, -, enforces, before⟩ := h.enforced_limited hs hphase
      have hr : r = _ := eval_limited hs hphase
      by_cases hover : now ≥ s.limitedUntil
      · refine Or.inr ⟨.remove flow.1 flow.2, ?_, ?_⟩
        · simp only [hr, hover, if_true]
        · simp only [hr, hover, if_true]
          refine ⟨rfl, ?_, fun _ => by simp [before], fun h => absurd rfl h⟩
          simp [revert, enforced, hs, hphase]
      · refine Or.inl ⟨?_, ?_⟩
        · simp only [hr, hover]
          rfl
        · simp only [hr, hover]
          simp [enforced, hs]

end FlowView

namespace Limiter

variable {reaches : RollingWindow → ℕ → Bool} {l : Limiter}

/-- The policy a flow is LIMITED by. -/
def enforced (l : Limiter) (flow : FlowKey) : Option DirPolicy := (l.view flow).enforced

theorem Ok.limited_iff (h : l.Ok) (flow : FlowKey) : l.Limited flow ↔ (l.enforced flow).isSome := by
  constructor
  · intro given
    obtain ⟨s, hs, hphase⟩ := given
    obtain ⟨p, -, -, hp⟩ := (h flow).enforced_limited hs hphase
    simp [enforced, hp]
  · intro hsome
    obtain ⟨s, hs, hphase, -⟩ := FlowView.limited_of_enforced hsome
    exact ⟨s, hs, hphase⟩

/-- At most one action for each flow. -/
theorem nodup_flows {actions : List LimitAction}
    (h : ∀ flow, (actions.filter (·.flow = flow)).length ≤ 1) :
    (actions.map LimitAction.flow).Nodup := by
  apply List.nodup_iff_count_le_one.mpr
  intro flow
  have hcount : (actions.map LimitAction.flow).count flow =
      (actions.filter (·.flow = flow)).length := by
    rw [List.count, List.countP_map, List.countP_eq_length_filter]
    congr 1
    apply List.filter_congr
    intro a _
    simp [Bool.beq_eq_decide_eq]
  rw [hcount]
  exact h flow

theorem Ok.flowTick_decides (h : l.Ok) (now : ℕ) (totals : Table UInt32 IpTotals)
    (flow : FlowKey) :
    let r := l.flowTick reaches now totals flow
    (r.2 = [] ∧ r.1.enforced = l.enforced flow) ∨
      ∃ action, r.2 = [action] ∧ (l.view flow).Decides r.1 action := by
  have hok := h flow
  unfold Limiter.flowTick
  cases hp : l.dirPolicy flow with
  | none => exact Or.inl ⟨rfl, rfl⟩
  | some np =>
    rw [hp] at hok
    exact FlowView.eval_decides hok

variable (reaches) in
/-- What a tick decides for a flow. -/
theorem Ok.tick_decides (h : l.Ok) (now : ℕ) (totals : Table UInt32 IpTotals)
    {ips : List UInt32} (distinct : ips.Nodup) (flow : FlowKey) :
    let r := l.tick reaches now totals ips
    (r.2.filter (·.flow = flow) = [] ∧ r.1.enforced flow = l.enforced flow) ∨
      ∃ action, r.2.filter (·.flow = flow) = [action] ∧
        (l.view flow).Decides (r.1.view flow) action := by
  intro r
  have hflow := tick_flow reaches now totals l ips distinct flow
  have hview : r.1.view flow = _ := congrArg Prod.fst hflow
  have hactions : r.2.filter (·.flow = flow) = _ := congrArg Prod.snd hflow
  rw [hactions, enforced, hview]
  by_cases hmem : flow.1 ∈ ips
  · rw [if_pos hmem]
    rcases h.clearExpired.flowTick_decides now totals flow with kept | ⟨action, hone, decides⟩
    · exact Or.inl kept
    · exact Or.inr ⟨action, hone, ⟨decides.enforces, decides.reverts, decides.remove_limited,
        decides.install_normal⟩⟩
  · rw [if_neg hmem]
    exact Or.inl ⟨rfl, rfl⟩

/-- What a reload decides for a flow: the policy of its action is what it is limited by
afterwards, and without an action its map entry stays right. -/
theorem Ok.reload_decides (h : l.Ok) {cfg : ValidatedConfig} {now : ℕ} {limited : List FlowKey}
    {plan : ReloadPlan} (visits : Visits limited l.Limited)
    (hplan : l.planReload cfg now limited = .ok plan) (flow : FlowKey) :
    (plan.actions.filter (·.flow = flow) = [] ∧
        ((l.commitReload plan).enforced flow).map DirPolicy.installed =
          (l.enforced flow).map DirPolicy.installed) ∨
      ∃ action, plan.actions.filter (·.flow = flow) = [action] ∧
        action.policy = ((l.commitReload plan).enforced flow).map DirPolicy.installed ∧
        (l.enforced flow).isSome := by
  rw [planReload_flow visits.nodup hplan flow, enforced,
    commitReload_view h.knowsApplied visits hplan flow]
  by_cases hlim : flow ∈ limited
  · obtain ⟨s, hs, hphase⟩ := (visits.mem_iff flow).mp hlim
    obtain ⟨p, -, enforces, before⟩ := (h flow).enforced_limited hs hphase
    have hbefore : l.enforced flow = some p := before
    rw [if_pos hlim, planOne_eq hs enforces.applied, hbefore]
    have hstate : (l.view flow).state.filter (·.phase = .limited) = some s := by
      simp [view, hs, Option.filter, hphase]
    cases hpolicy : lookupDir plan.newRanges plan.newOverrides flow with
    | none => exact Or.inr ⟨.remove flow.1 flow.2, rfl, rfl, rfl⟩
    | some np =>
      by_cases hover : u64SaturatingAdd s.limitedSince np.limitDurationSecs ≤ now
      · refine Or.inr ⟨.remove flow.1 flow.2, ?_, ?_, rfl⟩
        · simp [Option.filter, Nat.not_lt.mpr hover]
        · simp [FlowView.reload, hstate, hover, FlowView.enforced, LimitAction.policy]
      · have hkept : ((l.view flow).reload (some np) l.tickSecs now).enforced = some np := by
          simp [FlowView.reload, hstate, hover, FlowView.enforced, hphase]
        rw [hkept]
        by_cases changed : reinstalls np p
        · refine Or.inr ⟨.installOf flow np, ?_, rfl, rfl⟩
          simp [Option.filter, Nat.not_le.mp hover, changed]
        · refine Or.inl ⟨?_, ?_⟩
          · simp [Option.filter, Nat.not_le.mp hover, changed]
          · simp only [reinstalls, Bool.or_eq_true, decide_eq_true_eq, not_or, ne_eq, not_not] at changed
            obtain ⟨⟨⟨hlimit, hburst⟩, halgorithm⟩, hwindow⟩ := changed
            simp [DirPolicy.installed, hlimit, hburst, halgorithm, hwindow]
  · have normal : ∀ s, l.states flow = some s → s.phase ≠ .limited := fun s hs hphase =>
      hlim ((visits.mem_iff flow).mpr ⟨s, hs, hphase⟩)
    have before : l.enforced flow = none := by
      cases hs : l.states flow with
      | none => simp [enforced, FlowView.enforced, view, hs]
      | some s => simp [enforced, FlowView.enforced, view, hs, normal s hs]
    have hstate : (l.view flow).state.filter (·.phase = .limited) = none := by
      apply Option.filter_eq_none_iff.mpr
      intro s hs
      simpa using normal s hs
    refine Or.inl ⟨if_neg hlim, ?_⟩
    rw [before]
    cases hpolicy : lookupDir plan.newRanges plan.newOverrides flow with
    | none => rfl
    | some np =>
      have same : ((l.view flow).reload (some np) l.tickSecs now).enforced = l.enforced flow := by
        simp [FlowView.reload, hstate, FlowView.enforced, enforced]
      rw [same, before]

end Limiter

end VmWatcher

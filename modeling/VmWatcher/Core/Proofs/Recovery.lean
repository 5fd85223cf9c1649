import VmWatcher.Core.Proofs.Accepted
import VmWatcher.Core.Proofs.Reload

/-!
# Every limit ends

The representation invariant of the limiter, over any run of reloads, ticks and
reverts: a LIMITED flow resolves to the policy it enforces, so no tick passes over it,
and it goes back to NORMAL at the first tick after its time is over.
-/

namespace VmWatcher

namespace RollingWindow

/-- The window was made for this length and tick. -/
structure BuiltFor (windowSecs tickSecs : ℕ) (w : RollingWindow) : Prop where
  windowSecs_eq : w.windowSecs = windowSecs
  length_ring : w.ring.length = sampleCount windowSecs tickSecs

variable {windowSecs tickSecs delta : ℕ} {w : RollingWindow}

theorem builtFor_new : (new windowSecs tickSecs).BuiltFor windowSecs tickSecs :=
  ⟨rfl, List.length_replicate⟩

theorem BuiltFor.add (h : w.BuiltFor windowSecs tickSecs) :
    (w.add delta).BuiltFor windowSecs tickSecs :=
  ⟨h.windowSecs_eq, List.length_set.trans h.length_ring⟩

theorem BuiltFor.reset (h : w.BuiltFor windowSecs tickSecs) :
    w.reset.BuiltFor windowSecs tickSecs :=
  ⟨h.windowSecs_eq, List.length_replicate.trans h.length_ring⟩

theorem BuiltFor.fit {windowSecs' : ℕ} (h : w.BuiltFor windowSecs tickSecs) :
    (w.fit windowSecs' tickSecs).BuiltFor windowSecs' tickSecs := by
  unfold RollingWindow.fit
  by_cases changed : windowSecs' ≠ w.windowSecs
  · rw [if_pos changed]
    exact builtFor_new
  · rw [if_neg changed]
    have same : windowSecs' = windowSecs := (not_not.mp changed).trans h.windowSecs_eq
    exact same ▸ h

end RollingWindow

/-- A LIMITED state enforces the policy for as long as the policy says. -/
structure DirState.Enforces (p : DirPolicy) (s : DirState) : Prop where
  limited : s.phase = .limited
  applied : s.applied = some p
  limitedUntil : s.limitedUntil = u64SaturatingAdd s.limitedSince p.limitDurationSecs

/-- What holds of the entries of one flow that resolves to `policy`. -/
structure FlowView.Ok (policy : Option DirPolicy) (tickSecs : ℕ) (v : FlowView) : Prop where
  limited : ∀ s, v.state = some s → s.phase = .limited → ∃ p, policy = some p ∧ s.Enforces p
  normal : ∀ s, v.state = some s → s.phase = .normal → s.applied = none
  window : ∀ w, v.window = some w → ∃ p, policy = some p ∧ w.BuiltFor p.windowSecs tickSecs

namespace FlowView

variable {policy : Option DirPolicy} {np : DirPolicy} {tickSecs delta now : ℕ} {v : FlowView}
variable {reaches : RollingWindow → ℕ → Bool} {flow : FlowKey}

/-- A flow that has just gone back to NORMAL, or never left it. -/
theorem Ok.normalState {w : Option RollingWindow} {e : Option DirState}
    (hw : ∀ x, w = some x → ∃ p, policy = some p ∧ x.BuiltFor p.windowSecs tickSecs) :
    Ok policy tickSecs ⟨w, some {}, e⟩ where
  limited s hs hphase := by
    obtain rfl := Option.some.inj hs
    exact Phase.noConfusion hphase
  normal s hs _ := by
    obtain rfl := Option.some.inj hs
    rfl
  window := hw

/-- The window a tick works on. -/
theorem Ok.nextWindow (h : v.Ok (some np) tickSecs) (delta : ℕ) :
    ((v.window.getD (.new np.windowSecs tickSecs)).add delta).BuiltFor np.windowSecs tickSecs := by
  refine RollingWindow.BuiltFor.add ?_
  cases hw : v.window with
  | none => exact RollingWindow.builtFor_new
  | some w =>
    obtain ⟨p, hp, built⟩ := h.window w hw
    obtain rfl := Option.some.inj hp
    exact built

/-- The entries of a flow whose window is `w` and whose state is as before. -/
theorem Ok.keepState {w : RollingWindow} {e : Option DirState} (h : v.Ok (some np) tickSecs)
    (hw : w.BuiltFor np.windowSecs tickSecs) :
    Ok (some np) tickSecs ⟨some w, some (v.state.getD {}), e⟩ := by
  have window : ∀ x, some w = some x → ∃ p, some np = some p ∧ x.BuiltFor p.windowSecs tickSecs :=
    fun x hx => ⟨np, rfl, Option.some.inj hx ▸ hw⟩
  cases hs : v.state with
  | none => exact .normalState window
  | some s =>
    refine ⟨?_, ?_, window⟩
    · intro s' hs'
      exact h.limited s' (hs.trans hs')
    · intro s' hs'
      exact h.normal s' (hs.trans hs')

theorem Ok.eval (h : v.Ok (some np) tickSecs) :
    (v.eval reaches flow np tickSecs delta now).1.Ok (some np) tickSecs := by
  have built := h.nextWindow delta
  unfold FlowView.eval
  dsimp only
  cases hphase : (v.state.getD {}).phase with
  | normal =>
    dsimp only
    split
    · refine ⟨?_, ?_, fun x hx => ⟨np, rfl, Option.some.inj hx ▸ built⟩⟩
      · intro s hs _
        obtain rfl := Option.some.inj hs
        exact ⟨np, rfl, rfl, rfl, rfl⟩
      · intro s hs hn
        obtain rfl := Option.some.inj hs
        exact Phase.noConfusion hn
    · exact h.keepState built
  | limited =>
    dsimp only
    split
    · exact .normalState fun x hx => ⟨np, rfl, Option.some.inj hx ▸ built.reset⟩
    · exact h.keepState built

theorem Ok.reload {policy' : Option DirPolicy} (h : v.Ok policy tickSecs) :
    (v.reload policy' tickSecs now).Ok policy' tickSecs := by
  have fits : ∀ w, v.window = some w → ∀ secs, (w.fit secs tickSecs).BuiltFor secs tickSecs ∧
      (w.reset.fit secs tickSecs).BuiltFor secs tickSecs := by
    intro w hw secs
    obtain ⟨p, -, built⟩ := h.window w hw
    exact ⟨built.fit, built.reset.fit⟩
  unfold FlowView.reload
  cases policy' with
  | none => exact ⟨nofun, nofun, nofun⟩
  | some np =>
    have window : ∀ x, v.window.map (RollingWindow.fit np.windowSecs tickSecs) = some x →
        ∃ p, some np = some p ∧ x.BuiltFor p.windowSecs tickSecs := by
      intro x hx
      obtain ⟨w, hw, rfl⟩ := Option.map_eq_some_iff.mp hx
      exact ⟨np, rfl, (fits w hw _).1⟩
    dsimp only
    cases hs : v.state.filter (·.phase = .limited) with
    | none =>
      refine ⟨fun s hs' hphase => ?_, h.normal, window⟩
      have := Option.filter_eq_none_iff.mp hs s hs'
      simp [hphase] at this
    | some s =>
      obtain ⟨hs', hphase⟩ := Option.filter_eq_some_iff.mp hs
      dsimp only
      split
      · refine .normalState fun x hx => ?_
        obtain ⟨w, hw, rfl⟩ := Option.map_eq_some_iff.mp hx
        exact ⟨np, rfl, (fits w hw _).2⟩
      · refine ⟨?_, ?_, window⟩
        · intro x hx _
          obtain rfl := Option.some.inj hx
          exact ⟨np, rfl, by simpa using hphase, rfl, rfl⟩
        · intro x hx hn
          obtain rfl := Option.some.inj hx
          simp_all

/-- A tick on a LIMITED flow: the limit ends, or nothing happens. -/
theorem eval_limited {s : DirState} (hs : v.state = some s) (hphase : s.phase = .limited) :
    v.eval reaches flow np tickSecs delta now =
      let window := (v.window.getD (.new np.windowSecs tickSecs)).add delta
      if now ≥ s.limitedUntil then
        (⟨some window.reset, some {}, some s⟩, [.remove flow.1 flow.2])
      else ({ v with window := some window, state := some s }, []) := by
  unfold FlowView.eval
  simp only [hs, Option.getD_some, hphase]

/-- What a tick stashes of a flow was in force. -/
theorem Ok.eval_expired (h : v.Ok (some np) tickSecs) (clear : v.expired = none) {prev : DirState}
    (hprev : (v.eval reaches flow np tickSecs delta now).1.expired = some prev) :
    prev.Enforces np := by
  cases hphase : (v.state.getD {}).phase with
  | normal =>
    have kept : (v.eval reaches flow np tickSecs delta now).1.expired = v.expired := by
      simp only [FlowView.eval, hphase]
      split <;> rfl
    rw [kept, clear] at hprev
    cases hprev
  | limited =>
    cases hs : v.state with
    | none =>
      rw [hs] at hphase
      cases hphase
    | some s =>
      rw [hs, Option.getD_some] at hphase
      rw [eval_limited hs hphase] at hprev
      by_cases hover : now ≥ s.limitedUntil
      · simp only [hover, if_true, Option.some.injEq] at hprev
        subst hprev
        obtain ⟨p, hp, enforces⟩ := h.limited s hs hphase
        obtain rfl := Option.some.inj hp
        exact enforces
      · simp [hover, clear] at hprev

/-- A revert on the entries of its own flow. -/
def revert (action : LimitAction) (v : FlowView) : FlowView :=
  match action with
  | .install _ _ _ _ _ _ => { v with state := v.state.map fun _ => {} }
  | .remove _ _ =>
    match v.expired with
    | none => v
    | some prev => { v with state := some prev, expired := none }

theorem Ok.revert {action : LimitAction} (h : v.Ok policy tickSecs)
    (restores : ∀ prev, v.expired = some prev → ∃ p, policy = some p ∧ prev.Enforces p) :
    (v.revert action).Ok policy tickSecs := by
  cases action with
  | install ipv4 direction rateBps burstBytes algorithm windowNs =>
    cases hs : v.state with
    | none =>
      simp only [FlowView.revert, hs, Option.map_none]
      exact ⟨nofun, nofun, h.window⟩
    | some s =>
      simp only [FlowView.revert, hs, Option.map_some]
      exact .normalState h.window
  | remove ipv4 direction =>
    cases he : v.expired with
    | none =>
      simp only [FlowView.revert, he]
      exact h
    | some prev =>
      obtain ⟨p, hp, enforces⟩ := restores prev he
      simp only [FlowView.revert, he]
      refine ⟨?_, ?_, h.window⟩
      · intro s hs _
        obtain rfl := Option.some.inj hs
        exact ⟨p, hp, enforces⟩
      · intro s hs hn
        obtain rfl := Option.some.inj hs
        exact Phase.noConfusion (enforces.limited.symm.trans hn)

end FlowView

namespace Limiter

variable (reaches : RollingWindow → ℕ → Bool) (accepts : ValidatedConfig → Prop)

/-- The limiter and the actions of its latest tick that may still be reverted, after any
run over configurations that `accepts` lets in. With `late` an action may be reverted even
after a reload was committed in between; the engine reverts within the tick. -/
inductive Reachable (late : Bool) : Limiter → List LimitAction → Prop where
  | new (tickSecs : ℕ) : Reachable late (Limiter.new tickSecs) []
  | reload {l : Limiter} {pending : List LimitAction} {cfg : ValidatedConfig} {now : ℕ}
      {limited : List FlowKey} {plan : ReloadPlan} :
      Reachable late l pending → accepts cfg → Visits limited l.Limited →
      l.planReload cfg now limited = .ok plan →
      Reachable late (l.commitReload plan) (if late then pending else [])
  | tick {l : Limiter} {pending : List LimitAction} (now : ℕ) (totals : Table UInt32 IpTotals)
      {ips : List UInt32} : Reachable late l pending → Visits ips (l.Evaluated totals) →
      Reachable late (l.tick reaches now totals ips).1 (l.tick reaches now totals ips).2
  | revert {l : Limiter} {pending : List LimitAction} {action : LimitAction} :
      Reachable late l pending → action ∈ pending →
      Reachable late (l.revertFailedAction action) pending

/-- The representation invariant. -/
def Ok (l : Limiter) : Prop := ∀ flow, (l.view flow).Ok (l.dirPolicy flow) l.tickSecs

/-- Every state that a revert would bring back enforces the flow's policy. -/
def Revertible (l : Limiter) (pending : List LimitAction) : Prop :=
  ∀ action ∈ pending, ∀ prev, l.expired action.flow = some prev →
    ∃ p, l.dirPolicy action.flow = some p ∧ prev.Enforces p

variable {reaches accepts} {l : Limiter} {pending : List LimitAction}

theorem new_ok (tickSecs : ℕ) : (Limiter.new tickSecs).Ok := fun _ => ⟨nofun, nofun, nofun⟩

theorem Ok.knowsApplied (h : l.Ok) : l.KnowsApplied := by
  intro flow s hs hphase
  obtain ⟨p, -, enforces⟩ := (h flow).limited s hs hphase
  exact ⟨p, enforces.applied⟩

theorem Ok.commitReload (h : l.Ok) {cfg : ValidatedConfig} {now : ℕ} {limited : List FlowKey}
    {plan : ReloadPlan} (visits : Visits limited l.Limited)
    (hplan : l.planReload cfg now limited = .ok plan) : (l.commitReload plan).Ok := by
  intro flow
  rw [commitReload_view h.knowsApplied visits hplan, commitReload_dirPolicy,
    (commitReload_index l plan).1]
  exact (h flow).reload

theorem Ok.flowTick (h : l.Ok) (now : ℕ) (totals : Table UInt32 IpTotals) (flow : FlowKey) :
    (l.flowTick reaches now totals flow).1.Ok (l.dirPolicy flow) l.tickSecs := by
  have hflow := h flow
  unfold Limiter.flowTick
  cases hpolicy : l.dirPolicy flow with
  | none =>
    rw [hpolicy] at hflow
    exact hflow
  | some np =>
    rw [hpolicy] at hflow
    exact hflow.eval

theorem Ok.clearExpired (h : l.Ok) : ({ l with expired := Table.empty } : Limiter).Ok :=
  fun flow => ⟨(h flow).limited, (h flow).normal, (h flow).window⟩

theorem Ok.tick (h : l.Ok) (now : ℕ) (totals : Table UInt32 IpTotals) {ips : List UInt32}
    (distinct : ips.Nodup) : (l.tick reaches now totals ips).1.Ok := by
  intro flow
  have hindex := tick_sameIndex reaches now totals l ips
  have hflow := congrArg Prod.fst (tick_flow reaches now totals l ips distinct flow)
  rw [hindex.dirPolicy, hindex.tickSecs]
  change (outcome flow (l.tick reaches now totals ips)).1.Ok _ _
  rw [hflow]
  split
  · exact h.clearExpired.flowTick now totals flow
  · exact ⟨(h flow).limited, (h flow).normal, (h flow).window⟩

/-- The states a tick stashes are those it has just found in force. -/
theorem Ok.revertible_tick (h : l.Ok) (now : ℕ) (totals : Table UInt32 IpTotals)
    {ips : List UInt32} (distinct : ips.Nodup) :
    (l.tick reaches now totals ips).1.Revertible (l.tick reaches now totals ips).2 := by
  intro action _ prev hprev
  have hindex := tick_sameIndex reaches now totals l ips
  have hflow := congrArg (fun r => r.1.expired)
    (tick_flow reaches now totals l ips distinct action.flow)
  replace hprev := hflow.symm.trans hprev
  rw [hindex.dirPolicy]
  by_cases hmem : action.flow.1 ∈ ips
  · rw [if_pos hmem] at hprev
    unfold Limiter.flowTick at hprev
    have hpolicy : ({ l with expired := Table.empty } : Limiter).dirPolicy action.flow =
        l.dirPolicy action.flow := rfl
    rw [hpolicy] at hprev
    have hok := h.clearExpired action.flow
    cases hp : l.dirPolicy action.flow with
    | none =>
      rw [hp] at hprev
      cases (show (none : Option DirState) = some prev from hprev)
    | some np =>
      rw [hpolicy, hp] at hok
      rw [hp] at hprev
      exact ⟨np, rfl, hok.eval_expired rfl hprev⟩
  · rw [if_neg hmem] at hprev
    cases (show (none : Option DirState) = some prev from hprev)

theorem revertFailedAction_sameIndex (l : Limiter) (action : LimitAction) :
    l.SameIndex (l.revertFailedAction action) := by
  cases action with
  | install ipv4 direction rateBps burstBytes algorithm windowNs => exact ⟨rfl, rfl, rfl⟩
  | remove ipv4 direction =>
    cases he : l.expired (ipv4, direction) <;>
      exact ⟨by simp [Limiter.revertFailedAction, he], by simp [Limiter.revertFailedAction, he],
        by simp [Limiter.revertFailedAction, he]⟩

/-- A revert touches neither windows nor baselines. -/
theorem revertFailedAction_windows (l : Limiter) (action : LimitAction) :
    (l.revertFailedAction action).windows = l.windows ∧
      (l.revertFailedAction action).prevTotals = l.prevTotals := by
  cases action with
  | install ipv4 direction rateBps burstBytes algorithm windowNs => exact ⟨rfl, rfl⟩
  | remove ipv4 direction =>
    unfold revertFailedAction
    dsimp only
    split <;> exact ⟨rfl, rfl⟩

/-- A revert touches its own flow and no other. -/
theorem view_revertFailedAction (l : Limiter) (action : LimitAction) (flow : FlowKey) :
    (l.revertFailedAction action).view flow =
      if flow = action.flow then (l.view flow).revert action else l.view flow := by
  cases action with
  | install ipv4 direction rateBps burstBytes algorithm windowNs =>
    by_cases h : flow = (ipv4, direction) <;>
      simp [Limiter.revertFailedAction, view, FlowView.revert, LimitAction.flow, h]
  | remove ipv4 direction =>
    by_cases h : flow = (ipv4, direction)
    · subst h
      cases he : l.expired (ipv4, direction) <;>
        simp [Limiter.revertFailedAction, view, FlowView.revert, LimitAction.flow, he]
    · cases he : l.expired (ipv4, direction) <;>
        simp [Limiter.revertFailedAction, view, LimitAction.flow, he, h]

theorem Ok.revertFailedAction (h : l.Ok) (revertible : l.Revertible pending)
    {action : LimitAction} (hmem : action ∈ pending) : (l.revertFailedAction action).Ok := by
  intro flow
  have hindex := revertFailedAction_sameIndex l action
  rw [view_revertFailedAction, hindex.dirPolicy, hindex.tickSecs]
  by_cases hflow : flow = action.flow
  · subst hflow
    rw [if_pos rfl]
    exact (h _).revert (revertible action hmem)
  · rw [if_neg hflow]
    exact h flow

theorem Revertible.revertFailedAction (h : l.Revertible pending) (action : LimitAction) :
    (l.revertFailedAction action).Revertible pending := by
  intro other hmem prev hprev
  have hview := congrArg FlowView.expired (view_revertFailedAction l action other.flow)
  rw [(revertFailedAction_sameIndex l action).dirPolicy]
  refine h other hmem prev ?_
  replace hprev := hview.symm.trans hprev
  by_cases hflow : other.flow = action.flow
  · rw [if_pos hflow] at hprev
    cases action with
    | install ipv4 direction rateBps burstBytes algorithm windowNs => exact hprev
    | remove ipv4 direction =>
      cases he : l.expired other.flow with
      | none => simp [FlowView.revert, view, he] at hprev
      | some prev' => simp [FlowView.revert, view, he] at hprev
  · rw [if_neg hflow] at hprev
    exact hprev

/-- Over any run the representation invariant holds, and what may be reverted can be. -/
theorem Reachable.ok (h : Reachable reaches accepts false l pending) : l.Ok ∧ l.Revertible pending := by
  induction h with
  | new tickSecs => exact ⟨new_ok tickSecs, nofun⟩
  | reload _ _ visits hplan ih => exact ⟨ih.1.commitReload visits hplan, nofun⟩
  | tick now totals _ visits ih =>
    exact ⟨ih.1.tick now totals visits.nodup, ih.1.revertible_tick now totals visits.nodup⟩
  | revert _ hmem ih =>
    exact ⟨ih.1.revertFailedAction ih.2 hmem, ih.2.revertFailedAction _⟩

variable (reaches) in
/-- What a tick does to a LIMITED flow. -/
theorem Ok.tick_limited (h : l.Ok) (now : ℕ) (totals : Table UInt32 IpTotals) {ips : List UInt32}
    (visits : Visits ips (l.Evaluated totals)) {flow : FlowKey} {s : DirState}
    (hs : l.states flow = some s) (hphase : s.phase = .limited) :
    ∃ window : RollingWindow, outcome flow (l.tick reaches now totals ips) =
      if now ≥ s.limitedUntil then
        (⟨some window.reset, some {}, some s⟩, [.remove flow.1 flow.2])
      else (⟨some window, some s, none⟩, []) := by
  have hmem : flow.1 ∈ ips := (visits.mem_iff flow.1).mpr (Or.inr ⟨flow.2, Or.inr ⟨s, hs, hphase⟩⟩)
  obtain ⟨p, hpolicy, -⟩ := (h flow).limited s hs hphase
  refine ⟨((l.windows flow).getD (.new p.windowSecs l.tickSecs)).add (l.flowDelta totals flow), ?_⟩
  rw [tick_flow reaches now totals l ips visits.nodup flow, if_pos hmem]
  have hclear : ({ l with expired := Table.empty } : Limiter).dirPolicy flow = some p := hpolicy
  unfold Limiter.flowTick
  rw [hclear]
  exact FlowView.eval_limited hs hphase

/-- Every LIMITED flow resolves to the policy it enforces and every tick after its time
takes exactly it back to NORMAL, when reverts happen before the next reload. -/
theorem limited_flows_recover (h : Reachable reaches accepts false l pending) :
    (∀ flow s, l.states flow = some s → s.phase = .limited → ∃ p, l.dirPolicy flow = some p ∧
      s.applied = some p ∧ s.limitedUntil = u64SaturatingAdd s.limitedSince p.limitDurationSecs) ∧
    (∀ flow s, l.states flow = some s → s.phase = .normal → s.applied = none) ∧
    (∀ flow w, l.windows flow = some w → ∃ p, l.dirPolicy flow = some p ∧
      w.windowSecs = p.windowSecs ∧
      w.ring.length = RollingWindow.sampleCount p.windowSecs l.tickSecs) ∧
    ∀ now totals ips, Visits ips (l.Evaluated totals) → ∀ flow s, l.states flow = some s →
      s.phase = .limited →
      let next := l.tick reaches now totals ips
      (s.limitedUntil ≤ now →
        next.2.filter (·.flow = flow) = [.remove flow.1 flow.2] ∧
        next.1.states flow = some {} ∧ ∃ w, next.1.windows flow = some (RollingWindow.reset w)) ∧
      (now < s.limitedUntil →
        next.2.filter (·.flow = flow) = [] ∧ next.1.states flow = some s) := by
  have hok := h.ok.1
  refine ⟨?_, fun flow => (hok flow).normal, ?_, ?_⟩
  · intro flow s hs hphase
    obtain ⟨p, hp, enforces⟩ := (hok flow).limited s hs hphase
    exact ⟨p, hp, enforces.applied, enforces.limitedUntil⟩
  · intro flow w hw
    obtain ⟨p, hp, built⟩ := (hok flow).window w hw
    exact ⟨p, hp, built.windowSecs_eq, built.length_ring⟩
  · intro now totals ips visits flow s hs hphase next
    obtain ⟨w, hout⟩ := hok.tick_limited reaches now totals visits hs hphase
    constructor
    · intro hover
      rw [if_pos hover] at hout
      exact ⟨congrArg Prod.snd hout, congrArg (fun r => r.1.state) hout, w,
        congrArg (fun r => r.1.window) hout⟩
    · intro early
      rw [if_neg (Nat.not_le.mpr early)] at hout
      exact ⟨congrArg Prod.snd hout, congrArg (fun r => r.1.state) hout⟩

/-! ### A revert that comes too late -/

/-- A file with one range of one address. -/
def oneAddressFile (policy : Option PolicyEntry) : Config where
  network := ⟨"br0"⟩
  ipRanges := [⟨"vms", "0.0.0.1-0.0.0.1", policy, []⟩]

/-- What such a file is parsed to. -/
def oneAddress (policy : PolicyFields) : ValidatedConfig where
  bridge := "br0"
  refreshIntervalMs := 1000
  interfaceScanIntervalSecs := 5
  mapMaxEntries := 8192
  swlMapMaxEntries := 256
  showInterface := false
  showPackets := false
  showIdleIps := false
  defaultSort := .ip
  metricsEnabled := false
  metricsUrl := "http://127.0.0.1:8428"
  metricsPushIntervalSecs := 60
  ranges := [⟨⟨"vms", 1, 1⟩, policy, []⟩]

def receiveLimit : PolicyFields where
  rxThresholdBps := some 1000000
  rxLimitBps := some 1000000
  windowSecs := some 1
  triggerRatioPct := some 100
  limitDurationSecs := some 1
  burstBytes := some 100000

def receiveLimitEntry : PolicyEntry where
  rxThreshold := some "1Mbps"
  rxLimit := some "1Mbps"
  window := some "1s"
  triggerRatio := some "100%"
  limitDuration := some "1s"
  burst := some "100KB"

theorem accepted_receiveLimit : (oneAddress receiveLimit).Accepted := by
  have parsed : (oneAddressFile (some receiveLimitEntry)).parse (fun _ => .error "") =
      .ok (oneAddress receiveLimit) := rfl
  exact ValidatedConfig.accepted_of_parse parsed

theorem accepted_unlimited : (oneAddress {}).Accepted := by
  have parsed : (oneAddressFile none).parse (fun _ => .error "") = .ok (oneAddress {}) := rfl
  exact ValidatedConfig.accepted_of_parse parsed

theorem visits_new (tickSecs : ℕ) : Visits [] (new tickSecs).Limited :=
  ⟨List.nodup_nil, by simp [Limited, new]⟩

/-- Only these flows have a policy, and nothing is kept of any other. -/
def KnowsAmong (flows : List FlowKey) (l : Limiter) : Prop :=
  ∀ f, f ∉ flows → l.dirPolicy f = none ∧ l.windows f = none ∧ l.states f = none

theorem KnowsAmong.visits {flows : List FlowKey} (h : l.KnowsAmong flows) {ips : List UInt32}
    (distinct : ips.Nodup) (covers : ∀ f ∈ flows, f.1 ∈ ips) {totals : Table UInt32 IpTotals}
    (counted : ∀ ip, (totals ip).isSome ↔ ip ∈ ips) : Visits ips (l.Evaluated totals) where
  nodup := distinct
  mem_iff ip := by
    refine ⟨fun hip => Or.inl ((counted ip).mpr hip), fun hip => ?_⟩
    by_contra hne
    have other : ∀ dir, (ip, dir) ∉ flows := fun dir hmem => hne (covers _ hmem)
    rcases hip with hip | ⟨dir, hip | ⟨s, hs, -⟩⟩
    · exact hne ((counted ip).mp hip)
    · simp [(h (ip, dir) (other dir)).2.1] at hip
    · simp [(h (ip, dir) (other dir)).2.2] at hs

theorem KnowsAmong.tick {flows : List FlowKey} (h : l.KnowsAmong flows) (now : ℕ)
    (totals : Table UInt32 IpTotals) {ips : List UInt32} (distinct : ips.Nodup) :
    (l.tick reaches now totals ips).1.KnowsAmong flows := by
  intro f hne
  obtain ⟨hpolicy, hwindow, hstate⟩ := h f hne
  have hview := congrArg Prod.fst (tick_flow reaches now totals l ips distinct f)
  have cleared : ({ l with expired := Table.empty } : Limiter).dirPolicy f = none := hpolicy
  rw [flowTick, cleared] at hview
  rw [(tick_sameIndex reaches now totals l ips).dirPolicy]
  have kept : ((l.tick reaches now totals ips).1.view f).window = l.windows f ∧
      ((l.tick reaches now totals ips).1.view f).state = l.states f := by
    change (l.tick reaches now totals ips).1.view f = _ at hview
    rw [hview]
    split <;> exact ⟨rfl, rfl⟩
  exact ⟨hpolicy, kept.1.trans hwindow, kept.2.trans hstate⟩

/-- Only one flow has a policy, and nothing is kept of any other. -/
def KnowsOnly (flow : FlowKey) (l : Limiter) : Prop :=
  ∀ f, f ≠ flow → l.dirPolicy f = none ∧ l.windows f = none ∧ l.states f = none

theorem KnowsOnly.among {flow : FlowKey} (h : l.KnowsOnly flow) : l.KnowsAmong [flow] :=
  fun f hne => h f fun heq => hne (List.mem_singleton.mpr heq)

theorem KnowsOnly.visits {flow : FlowKey} (h : l.KnowsOnly flow) (totals : IpTotals) :
    Visits [flow.1] (l.Evaluated (Table.empty.insert flow.1 totals)) := by
  apply h.among.visits (List.nodup_singleton flow.1) (by simp)
  intro ip
  by_cases hip : ip = flow.1 <;> simp [hip]

theorem KnowsOnly.tick {flow : FlowKey} (h : l.KnowsOnly flow) (now : ℕ)
    (totals : Table UInt32 IpTotals) {ips : List UInt32} (distinct : ips.Nodup) :
    (l.tick reaches now totals ips).1.KnowsOnly flow :=
  fun f hne => h.among.tick now totals distinct f (by simpa using hne)

/-- A flow without a policy gets no action. -/
theorem tick_unpoliced {flow : FlowKey} (h : l.dirPolicy flow = none) (now : ℕ)
    (totals : Table UInt32 IpTotals) {ips : List UInt32} (distinct : ips.Nodup) :
    (l.tick reaches now totals ips).2.filter (·.flow = flow) = [] := by
  have hactions := congrArg Prod.snd (tick_flow reaches now totals l ips distinct flow)
  have cleared : ({ l with expired := Table.empty } : Limiter).dirPolicy flow = none := h
  rw [flowTick, cleared] at hactions
  refine hactions.trans ?_
  split <;> rfl

def receiveOnly : DirPolicy where
  thresholdBps := 1000000
  limitBps := 1000000
  windowSecs := 1
  triggerRatioPct := 100
  limitDurationSecs := 1
  burstBytes := 100000
  algorithm := algoGcra
  limitWindowSecs := 0

/-- The plan that puts `oneAddress` in force while nothing is LIMITED. -/
def indexPlan (policy : EffectivePolicy) : ReloadPlan := ⟨[], [⟨1, 1, policy⟩], Table.empty, [], []⟩

theorem indexPlan_knowsOnly (np : DirPolicy) :
    ((new 1).commitReload (indexPlan ⟨some np, none⟩)).KnowsOnly (1, dirRx) := by
  rintro ⟨ip, dir⟩ hne
  refine ⟨?_, rfl, rfl⟩
  change lookupDir [⟨1, 1, ⟨some np, none⟩⟩] Table.empty (ip, dir) = none
  by_cases hip : ip = 1
  · subst hip
    have hdir : dir ≠ dirRx := fun h => hne (by rw [h])
    simp [lookupDir, lookup, EffectivePolicy.dir, hdir, EffectivePolicy.isEmpty]
  · have outside : ¬(1 ≤ ip ∧ ip ≤ 1) := fun h => hip (UInt32.le_antisymm h.2 h.1)
    simp [lookupDir, lookup, outside]

/-- The first tick over the address: nothing is counted yet. -/
def baselineRun (np : DirPolicy) : Limiter × List LimitAction :=
  ((new 1).commitReload (indexPlan ⟨some np, none⟩)).tick RollingWindow.reachesExactly 0
    (Table.empty.insert 1 {}) [1]

/-- One second over the threshold: the flow is LIMITED until 2. -/
def limitedRun (np : DirPolicy) : Limiter × List LimitAction :=
  (baselineRun np).1.tick RollingWindow.reachesExactly 1
    (Table.empty.insert 1 { rxBytes := 125000 }) [1]

section Runs

variable (late : Bool) {cfg : ValidatedConfig} {np : DirPolicy} (accepted : cfg.Accepted)
variable (planned : (new 1).planReload cfg 0 [] = .ok (indexPlan ⟨some np, none⟩))
include accepted planned

theorem baselineRun_reachable :
    Reachable RollingWindow.reachesExactly ValidatedConfig.Accepted late (baselineRun np).1
        (baselineRun np).2 ∧
      (baselineRun np).1.KnowsOnly (1, dirRx) := by
  have started : Reachable RollingWindow.reachesExactly ValidatedConfig.Accepted late
      ((new 1).commitReload (indexPlan ⟨some np, none⟩)) (if late then [] else []) :=
    .reload (.new 1) accepted (visits_new 1) planned
  have known := indexPlan_knowsOnly np
  exact ⟨started.tick 0 _ (known.visits {}), known.tick 0 _ (List.nodup_singleton 1)⟩

theorem limitedRun_reachable :
    Reachable RollingWindow.reachesExactly ValidatedConfig.Accepted late (limitedRun np).1
        (limitedRun np).2 ∧
      (limitedRun np).1.KnowsOnly (1, dirRx) := by
  obtain ⟨reached, known⟩ := baselineRun_reachable late accepted planned
  exact ⟨reached.tick 1 _ (known.visits { rxBytes := 125000 }),
    known.tick 1 _ (List.nodup_singleton 1)⟩

end Runs

theorem limited_flows_recover_one_second :
    let idle : Table UInt32 IpTotals := Table.empty.insert 1 { rxBytes := 125000 }
    ((limitedRun receiveOnly).1.tick RollingWindow.reachesExactly 1 idle [1]).2.filter
      (·.flow = (1, dirRx)) = [] ∧
    ((limitedRun receiveOnly).1.tick RollingWindow.reachesExactly 2 idle [1]).2.filter
      (·.flow = (1, dirRx)) = [.remove 1 dirRx] := by
  obtain ⟨reached, known⟩ := limitedRun_reachable false accepted_receiveLimit rfl
  have recover := (limited_flows_recover reached).2.2.2
  have visits := known.visits { rxBytes := 125000 }
  constructor
  · exact ((recover 1 _ _ visits (1, dirRx) _ rfl rfl).2 (by decide)).1
  · exact ((recover 2 _ _ visits (1, dirRx) _ rfl rfl).1 (by rfl)).1

/-- One more tick takes the flow back to NORMAL and stashes its state. -/
def expiredRun : Limiter × List LimitAction :=
  (limitedRun receiveOnly).1.tick RollingWindow.reachesExactly 2
    (Table.empty.insert 1 { rxBytes := 125000 }) [1]

/-- The limits are taken out of the configuration, and only then the Remove is reverted. -/
def strandedRun : Limiter :=
  (expiredRun.1.commitReload (indexPlan {})).revertFailedAction (.remove 1 dirRx)

theorem strandedRun_reachable :
    Reachable RollingWindow.reachesExactly ValidatedConfig.Accepted true strandedRun expiredRun.2 := by
  obtain ⟨reached, known⟩ := limitedRun_reachable true accepted_receiveLimit rfl
  have reached := reached.tick 2 _ (known.visits { rxBytes := 125000 })
  have known : expiredRun.1.KnowsOnly (1, dirRx) := known.tick 2
    (Table.empty.insert 1 { rxBytes := 125000 }) (List.nodup_singleton 1)
  have untouched : Visits [] expiredRun.1.Limited := by
    refine ⟨List.nodup_nil, fun flow => ⟨nofun, ?_⟩⟩
    intro h
    obtain ⟨s, hs, hphase⟩ := h
    by_cases hflow : flow = (1, dirRx)
    · subst hflow
      have normal : expiredRun.1.states (1, dirRx) = some {} := by rfl
      obtain rfl := Option.some.inj (normal.symm.trans hs)
      cases hphase
    · have absent : expiredRun.1.states flow = none := (known flow hflow).2.2
      rw [absent] at hs
      cases hs
  have planned : expiredRun.1.planReload (oneAddress {}) 2 [] = .ok (indexPlan {}) := rfl
  have dropped := reached.reload accepted_unlimited untouched planned
  exact dropped.revert (by decide)

/-- Reverted after the reload that took its policy away, a Remove leaves a LIMITED flow
behind that resolves to no policy, and no tick ever comes back to it. -/
theorem late_revert_strands_flow :
    Reachable RollingWindow.reachesExactly ValidatedConfig.Accepted true strandedRun expiredRun.2 ∧
    (∃ s, strandedRun.states (1, dirRx) = some s ∧ s.phase = .limited ∧ s.limitedUntil = 2) ∧
    strandedRun.dirPolicy (1, dirRx) = none ∧
    ∀ now totals ips, ips.Nodup →
      (strandedRun.tick RollingWindow.reachesExactly now totals ips).2.filter
        (·.flow = (1, dirRx)) = [] := by
  have unpoliced : strandedRun.dirPolicy (1, dirRx) = none := by rfl
  exact ⟨strandedRun_reachable, ⟨_, rfl, rfl, rfl⟩, unpoliced, fun now totals ips distinct =>
    tick_unpoliced unpoliced now totals distinct⟩

end Limiter

end VmWatcher

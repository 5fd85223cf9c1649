import VmWatcher.Daemon.Proofs.Agreement
import VmWatcher.Misc.OpPlan

/-!
# Flows do not disturb each other within a tick

Two ticks whose data agree on one flow, with whatever else failing elsewhere, leave the
same of that flow in the limiter and in the maps (`flows_isolated`).
-/

namespace VmWatcher

open OpProg

/-- What the limit maps hold of one flow. -/
structure FlowMaps where
  policy : Option LimitPolicy
  state : Option LimitState
  ring : Option SwlRing
  verdicts : Option PolicerStats

namespace FlowMaps

/-- The map operations on the entries of the flow they work on. -/
def exec : (op : MapOp) → FlowMaps → op.Res × FlowMaps
  | .getPolicy _, m => (m.policy, m)
  | .armPolicy _ policy, m => ((), { m with policy := some policy })
  | .disarmPolicy _, m => ((), { m with policy := none })
  | .writeFreshState _ algorithm, m =>
      if algorithm = algoSlidingWindowLog then ((), { m with ring := some {} })
      else ((), { m with state := some {} })
  | .clearState _ algorithm, m =>
      if algorithm = algoSlidingWindowLog then ((), { m with ring := none })
      else ((), { m with state := none })
  | .clearPolicer _, m => ((), { m with verdicts := none })
  | .wlInsert _, m | .wlRemove _, m => ((), m)

end FlowMaps

namespace Dataplane

def flowMaps (d : Dataplane) (key : LimitKey) : FlowMaps :=
  ⟨d.policies key, d.limitState key, d.swlLog key, d.policerStats key⟩

/-- An operation works on the entries of its own flow. -/
theorem exec_flowMaps {key : LimitKey} (op : MapOp) (d : Dataplane) (h : op.target = .flow key) :
    ((op.exec d).1, (op.exec d).2.flowMaps key) = FlowMaps.exec op (d.flowMaps key) := by
  cases op with
  | wlInsert cidr | wlRemove cidr => cases h
  | getPolicy k | armPolicy k policy | disarmPolicy k | clearPolicer k =>
    obtain rfl := RollbackTarget.flow.inj h
    simp [MapOp.exec, FlowMaps.exec, flowMaps]
  | writeFreshState k algorithm | clearState k algorithm =>
    obtain rfl := RollbackTarget.flow.inj h
    by_cases ring : algorithm = algoSlidingWindowLog <;>
      simp [MapOp.exec, FlowMaps.exec, flowMaps, ring]

theorem exec_flowMaps_of_ne {key : LimitKey} (op : MapOp) (d : Dataplane)
    (h : op.target ≠ .flow key) : (op.exec d).2.flowMaps key = d.flowMaps key := by
  have other : ∀ k, op.target = .flow k → key ≠ k := by
    intro k htarget same
    subst same
    exact h htarget
  cases op with
  | wlInsert cidr | wlRemove cidr | getPolicy k => rfl
  | armPolicy k policy | disarmPolicy k | clearPolicer k =>
    simp [MapOp.exec, flowMaps, other k rfl]
  | writeFreshState k algorithm | clearState k algorithm =>
    by_cases ring : algorithm = algoSlidingWindowLog <;>
      simp [MapOp.exec, flowMaps, ring, other k rfl]

end Dataplane

/-- A run that does not work on a flow leaves its entries alone. -/
theorem Runs.flowMaps_of_ne {α : Type} {prog : Prog α} {d d' : Dataplane}
    {evs : List (Event MapOp AnyError Dataplane)} {a : α} {key : LimitKey}
    (run : Runs MapOp.exec prog d evs a d') (other : ∀ ev ∈ evs, ev.op.target ≠ .flow key) :
    d'.flowMaps key = d.flowMaps key := by
  induction run with
  | done a d => rfl
  | @ok op next d d' evs a _ ih =>
    refine (ih fun ev hev => other ev (List.mem_cons_of_mem _ hev)).trans ?_
    exact Dataplane.exec_flowMaps_of_ne op d (other _ List.mem_cons_self)
  | fail e _ ih => exact ih fun ev hev => other ev (List.mem_cons_of_mem _ hev)

/-! ### The actions of a tick -/

section Actions

variable {flow : FlowKey} {action : LimitAction} {actions : List LimitAction}
variable {l l' : Limiter} {d d' : Dataplane} {evs : List (Event MapOp AnyError Dataplane)}
variable {failures : List TickActionFailure}

/-- A tick action works on its own flow, also when it is rolled back. -/
theorem transact_own {r : Except (AnyError × RollbackReport) Unit}
    (run : Runs MapOp.exec (transact (runLimitActions [action])) d evs r d') :
    ∀ ev ∈ evs, ev.op.target = .flow action.key := by
  have about : ∀ a ∈ [action], (.flow a.key : RollbackTarget) = .flow action.key ∧
      (.flow a.key : RollbackTarget) = .flow action.key := by
    intro a ha
    obtain rfl := List.mem_singleton.mp ha
    exact ⟨rfl, rfl⟩
  have forward : Tx.wp Shape.exec (Touches (· = .flow action.key)) (runLimitActions [action])
      (fun _ journal _ => journal.Touches (· = .flow action.key)) {} d.shape :=
    runLimitActions_touches [action] d.shape about .empty
  have admitted := wp_admits (transact_touches forward) (Dataplane.runs_shape run)
  intro ev hev
  obtain ⟨_, touches⟩ := admitted _ (List.mem_map_of_mem hev)
  exact touches

/-- What a list of actions without one for the flow leaves of it. -/
theorem applyEachTickAction_other (h : ∀ a ∈ actions, a.flow ≠ flow)
    (run : Runs MapOp.exec (applyEachTickAction l actions) d evs (l', failures) d') :
    l'.view flow = l.view flow ∧ d'.flowMaps (limitKey flow) = d.flowMaps (limitKey flow) ∧
      ∀ ev ∈ evs, ev.op.target ≠ .flow (limitKey flow) := by
  induction actions generalizing l d evs failures with
  | nil =>
    cases run
    exact ⟨rfl, rfl, nofun⟩
  | cons a actions ih =>
    obtain ⟨evs₁, ⟨l₁, failures₁⟩, d₁, evs₂, first, rest, rfl⟩ := run.bind_inv
    obtain ⟨r, one, rfl, -⟩ := applyTickAction_inv first
    obtain ⟨evs₃, ⟨l₂, failures₂⟩, d₂, evs₄, second, last, rfl⟩ := rest.bind_inv
    cases last
    have hne : a.flow ≠ flow := h a List.mem_cons_self
    have away : ∀ ev ∈ evs₁, ev.op.target ≠ .flow (limitKey flow) := by
      intro ev hev htarget
      have := RollbackTarget.flow.inj ((transact_own one ev hev).symm.trans htarget)
      exact hne (limitKey_injective this)
    obtain ⟨hview, hmaps, hevs⟩ := ih (fun a ha => h a (List.mem_cons_of_mem _ ha)) second
    refine ⟨hview.trans ?_, hmaps.trans (Runs.flowMaps_of_ne one away), ?_⟩
    · split
      · rfl
      · rw [Limiter.view_revertFailedAction, if_neg hne.symm]
    · intro ev hev
      rcases List.mem_append.mp hev with hev | hev
      · exact away ev hev
      · rw [List.append_nil] at hev
        exact hevs ev hev

/-- How the one action of a flow went. -/
structure Carried (action : LimitAction) (v : FlowView) (m : FlowMaps)
    (evs : List (Event MapOp AnyError FlowMaps)) (v' : FlowView) (m' : FlowMaps) : Prop where
  run : ∃ r, Runs FlowMaps.exec (transact (runLimitActions [action])) m evs r m' ∧
    v' = if r.isOk then v else v.revert action
  own : ∀ ev ∈ evs, ev.op.target = .flow action.key

/-- What a list of actions with one for the flow leaves of it: the operations of that one
action, and the others before and after. -/
theorem applyEachTickAction_own (h : actions.filter (·.flow = flow) = [action])
    (run : Runs MapOp.exec (applyEachTickAction l actions) d evs (l', failures) d') :
    ∃ before own after, evs = before ++ (own ++ after) ∧
      (∀ ev ∈ before, ev.op.target ≠ .flow (limitKey flow)) ∧
      Carried action (l.view flow) (d.flowMaps (limitKey flow))
        (own.map (Event.map (·.flowMaps (limitKey flow)))) (l'.view flow)
        (d'.flowMaps (limitKey flow)) := by
  induction actions generalizing l d evs failures with
  | nil => cases h
  | cons a actions ih =>
    obtain ⟨evs₁, ⟨l₁, failures₁⟩, d₁, evs₂, first, rest, rfl⟩ := run.bind_inv
    obtain ⟨r, one, rfl, -⟩ := applyTickAction_inv first
    obtain ⟨evs₃, ⟨l₂, failures₂⟩, d₂, evs₄, second, last, rfl⟩ := rest.bind_inv
    cases last
    by_cases hflow : a.flow = flow
    · rw [List.filter_cons_of_pos (by simpa using hflow), List.cons.injEq] at h
      obtain ⟨rfl, hnone⟩ := h
      subst hflow
      have others : ∀ a' ∈ actions, a'.flow ≠ a.flow := by
        intro a' ha' heq
        simpa [heq] using List.filter_eq_nil_iff.mp hnone a' ha'
      obtain ⟨hview, hmaps, hevs⟩ := applyEachTickAction_other others second
      refine ⟨[], evs₁, evs₃, by simp, nofun, ⟨r, ?_, ?_⟩, ?_⟩
      · rw [hmaps]
        exact one.map_of (·.flowMaps (limitKey a.flow)) Dataplane.exec_flowMaps (transact_own one)
      · rw [hview]
        split
        · rfl
        · rw [Limiter.view_revertFailedAction, if_pos rfl]
      · intro ev hev
        obtain ⟨ev', hev', rfl⟩ := List.mem_map.mp hev
        exact transact_own one ev' hev'
    · rw [List.filter_cons_of_neg (by simpa using hflow)] at h
      have away : ∀ ev ∈ evs₁, ev.op.target ≠ .flow (limitKey flow) := by
        intro ev hev htarget
        have := RollbackTarget.flow.inj ((transact_own one ev hev).symm.trans htarget)
        exact hflow (limitKey_injective this)
      obtain ⟨before, own, after, hevs, hbefore, carried⟩ := ih h second
      have untouched : (if r.isOk then l else l.revertFailedAction a).view flow = l.view flow := by
        split
        · rfl
        · rw [Limiter.view_revertFailedAction, if_neg (Ne.symm hflow)]
      rw [untouched, Runs.flowMaps_of_ne one away] at carried
      refine ⟨evs₁ ++ before, own, after, by simp [hevs], ?_, carried⟩
      intro ev hev
      rcases List.mem_append.mp hev with hev | hev
      · exact away ev hev
      · exact hbefore ev hev

end Actions

/-! ### Two ticks -/

/-- A tick asks for one action for a flow, if any. -/
theorem Limiter.tick_actions (reaches : RollingWindow → ℕ → Bool) (l : Limiter) (now : ℕ)
    (totals : Table UInt32 IpTotals) {ips : List UInt32} (distinct : ips.Nodup) (flow : FlowKey) :
    (l.tick reaches now totals ips).2.filter (·.flow = flow) = [] ∨
      ∃ action, (l.tick reaches now totals ips).2.filter (·.flow = flow) = [action] := by
  have houtcome := congrArg Prod.snd (tick_flow reaches now totals l ips distinct flow)
  change (l.tick reaches now totals ips).2.filter (·.flow = flow) = _ at houtcome
  rw [houtcome]
  split
  · unfold flowTick
    split
    · exact Or.inl rfl
    · dsimp only [FlowView.eval]
      split
      · split
        · exact Or.inr ⟨_, rfl⟩
        · exact Or.inl rfl
      · split
        · exact Or.inr ⟨_, rfl⟩
        · exact Or.inl rfl
  · exact Or.inl rfl

/-- A tick and its actions: the addresses are evaluated and the actions executed in any
order, and the operations fail as planned for each flow. -/
def TickRun (reaches : RollingWindow → ℕ → Bool)
    (fails : RollbackTarget → ℕ → MapOp → Option AnyError) (now : ℕ)
    (totals : Table UInt32 IpTotals) (l : Limiter) (d : Dataplane) (l' : Limiter) (d' : Dataplane) :
    Prop :=
  ∃ ips order evs failures, Visits ips (l.Evaluated totals) ∧
    order.Perm (l.tick reaches now totals ips).2 ∧
    Runs MapOp.exec (applyEachTickAction (l.tick reaches now totals ips).1 order) d evs
      (l', failures) d' ∧
    Planned MapOp.target fails (fun _ => 0) evs

/-- The order the engine executes the actions in is one of these. -/
theorem applyTickActions_tickRun {reaches : RollingWindow → ℕ → Bool}
    {fails : RollbackTarget → ℕ → MapOp → Option AnyError} {now : ℕ}
    {totals : Table UInt32 IpTotals} {l l' : Limiter} {d d' : Dataplane} {ips : List UInt32}
    {evs : List (Event MapOp AnyError Dataplane)} {failures : List TickActionFailure}
    (visits : Visits ips (l.Evaluated totals))
    (run : Runs MapOp.exec (applyTickActions (l.tick reaches now totals ips).1
      (l.tick reaches now totals ips).2) d evs (l', failures) d')
    (planned : Planned MapOp.target fails (fun _ => 0) evs) :
    TickRun reaches fails now totals l d l' d' :=
  ⟨ips, _, evs, failures, visits, List.filter_append_perm _ _, run, planned⟩

/-- Whatever the plan, the tick has a run. -/
theorem exists_tickRun (reaches : RollingWindow → ℕ → Bool)
    (fails : RollbackTarget → ℕ → MapOp → Option AnyError) (now : ℕ)
    (totals : Table UInt32 IpTotals) {l : Limiter} {ips : List UInt32}
    (visits : Visits ips (l.Evaluated totals)) (d : Dataplane) :
    ∃ l' d', TickRun reaches fails now totals l d l' d' := by
  obtain ⟨evs, ⟨l', failures⟩, d', run, planned⟩ := exists_planned
    (applyTickActions (l.tick reaches now totals ips).1 (l.tick reaches now totals ips).2) fails
    (fun _ => 0) d
  exact ⟨l', d', applyTickActions_tickRun visits run planned⟩

/-- Two ticks start from the same data of one flow: its entries, its policy, and the
counters and baseline of its address. -/
structure AgreeOn (flow : FlowKey) (l₁ l₂ : Limiter) (totals₁ totals₂ : Table UInt32 IpTotals)
    (d₁ d₂ : Dataplane) : Prop where
  tickSecs : l₁.tickSecs = l₂.tickSecs
  window : l₁.windows flow = l₂.windows flow
  state : l₁.states flow = l₂.states flow
  policy : l₁.dirPolicy flow = l₂.dirPolicy flow
  baseline : l₁.prevTotals flow.1 = l₂.prevTotals flow.1
  totals : totals₁ flow.1 = totals₂ flow.1
  maps : d₁.flowMaps (limitKey flow) = d₂.flowMaps (limitKey flow)

section Two

variable {reaches : RollingWindow → ℕ → Bool} {flow : FlowKey} {now : ℕ}
variable {l₁ l₂ l₁' l₂' : Limiter} {totals₁ totals₂ : Table UInt32 IpTotals}
variable {d₁ d₂ d₁' d₂' : Dataplane}

theorem AgreeOn.outcome (agree : AgreeOn flow l₁ l₂ totals₁ totals₂ d₁ d₂) {ips₁ ips₂ : List UInt32}
    (visits₁ : Visits ips₁ (l₁.Evaluated totals₁)) (visits₂ : Visits ips₂ (l₂.Evaluated totals₂))
    (evaluated : l₁.Evaluated totals₁ flow.1 ↔ l₂.Evaluated totals₂ flow.1) :
    Limiter.outcome flow (l₁.tick reaches now totals₁ ips₁) =
      Limiter.outcome flow (l₂.tick reaches now totals₂ ips₂) := by
  have hview : ({ l₁.view flow with expired := none } : FlowView) =
      { l₂.view flow with expired := none } := by
    simp [Limiter.view, agree.window, agree.state]
  have htick : { l₁ with expired := Table.empty }.flowTick reaches now totals₁ flow =
      { l₂ with expired := Table.empty }.flowTick reaches now totals₂ flow := by
    have hpolicy : ({ l₁ with expired := Table.empty } : Limiter).dirPolicy flow =
        ({ l₂ with expired := Table.empty } : Limiter).dirPolicy flow := agree.policy
    unfold Limiter.flowTick
    rw [hpolicy]
    simp only [Limiter.view, Limiter.flowDelta, agree.window, agree.state, agree.tickSecs,
      agree.baseline, agree.totals]
  have hmem : flow.1 ∈ ips₁ ↔ flow.1 ∈ ips₂ :=
    (visits₁.mem_iff _).trans (evaluated.trans (visits₂.mem_iff _).symm)
  rw [Limiter.tick_flow reaches now totals₁ l₁ ips₁ visits₁.nodup flow,
    Limiter.tick_flow reaches now totals₂ l₂ ips₂ visits₂.nodup flow, htick, hview]
  by_cases h : flow.1 ∈ ips₁
  · rw [if_pos h, if_pos (hmem.mp h)]
  · rw [if_neg h, if_neg (mt hmem.mpr h)]

theorem Carried.unique {action : LimitAction} {v v₁ v₂ : FlowView} {m m₁ m₂ : FlowMaps}
    {evs₁ evs₂ : List (Event MapOp AnyError FlowMaps)} {seen₁ seen₂ : RollbackTarget → ℕ}
    {fails₁ fails₂ : RollbackTarget → ℕ → MapOp → Option AnyError}
    (carried₁ : Carried action v m evs₁ v₁ m₁) (carried₂ : Carried action v m evs₂ v₂ m₂)
    (planned₁ : Planned MapOp.target fails₁ seen₁ evs₁)
    (planned₂ : Planned MapOp.target fails₂ seen₂ evs₂)
    (same : fails₁ (.flow action.key) = fails₂ (.flow action.key))
    (seen : seen₁ (.flow action.key) = seen₂ (.flow action.key)) : v₁ = v₂ ∧ m₁ = m₂ := by
  obtain ⟨r₁, run₁, rfl⟩ := carried₁.run
  obtain ⟨r₂, run₂, rfl⟩ := carried₂.run
  obtain ⟨rfl, hmaps⟩ := run₁.deterministic run₂ carried₁.own planned₁ planned₂ same seen
  exact ⟨rfl, hmaps⟩

/-- The flow's own data put its address among those a tick evaluates. -/
def Present (flow : FlowKey) (l : Limiter) (totals : Table UInt32 IpTotals) : Prop :=
  (totals flow.1).isSome ∨ (l.windows flow).isSome ∨ l.Limited flow

theorem Present.evaluated {l : Limiter} {totals : Table UInt32 IpTotals}
    (h : Present flow l totals) : l.Evaluated totals flow.1 := by
  rcases h with counted | window | limited
  · exact Or.inl counted
  · exact Or.inr ⟨flow.2, Or.inl window⟩
  · exact Or.inr ⟨flow.2, Or.inr limited⟩

theorem AgreeOn.present (agree : AgreeOn flow l₁ l₂ totals₁ totals₂ d₁ d₂)
    (h : Present flow l₁ totals₁) : Present flow l₂ totals₂ := by
  unfold Present Limiter.Limited at h ⊢
  rwa [← agree.totals, ← agree.window, ← agree.state]

/-- A tick and its actions leave of a flow what its own data decide, and, where these do
not put its address among those evaluated, whether it is evaluated at all. -/
theorem flows_isolated {fails₁ fails₂ : RollbackTarget → ℕ → MapOp → Option AnyError}
    (agree : AgreeOn flow l₁ l₂ totals₁ totals₂ d₁ d₂)
    (present : Present flow l₁ totals₁ ∨
      (l₁.Evaluated totals₁ flow.1 ↔ l₂.Evaluated totals₂ flow.1))
    (own : fails₁ (.flow (limitKey flow)) = fails₂ (.flow (limitKey flow)))
    (run₁ : TickRun reaches fails₁ now totals₁ l₁ d₁ l₁' d₁')
    (run₂ : TickRun reaches fails₂ now totals₂ l₂ d₂ l₂' d₂') :
    l₁'.view flow = l₂'.view flow ∧
      d₁'.flowMaps (limitKey flow) = d₂'.flowMaps (limitKey flow) := by
  obtain ⟨ips₁, order₁, evs₁, failures₁, visits₁, perm₁, run₁, planned₁⟩ := run₁
  obtain ⟨ips₂, order₂, evs₂, failures₂, visits₂, perm₂, run₂, planned₂⟩ := run₂
  have evaluated : l₁.Evaluated totals₁ flow.1 ↔ l₂.Evaluated totals₂ flow.1 := by
    rcases present with present | same
    · exact ⟨fun _ => (agree.present present).evaluated, fun _ => present.evaluated⟩
    · exact same
  have houtcome : Limiter.outcome flow (l₁.tick reaches now totals₁ ips₁) =
      Limiter.outcome flow (l₂.tick reaches now totals₂ ips₂) :=
    agree.outcome visits₁ visits₂ evaluated
  have hview : (l₁.tick reaches now totals₁ ips₁).1.view flow =
      (l₂.tick reaches now totals₂ ips₂).1.view flow := congrArg Prod.fst houtcome
  have hactions : (l₁.tick reaches now totals₁ ips₁).2.filter (·.flow = flow) =
      (l₂.tick reaches now totals₂ ips₂).2.filter (·.flow = flow) := congrArg Prod.snd houtcome
  have filtered₁ := perm₁.filter (·.flow = flow)
  have filtered₂ := perm₂.filter (·.flow = flow)
  rcases l₁.tick_actions reaches now totals₁ visits₁.nodup flow with none₁ | ⟨action, one₁⟩
  · have none₂ := hactions.symm.trans none₁
    rw [none₁, List.perm_nil] at filtered₁
    rw [none₂, List.perm_nil] at filtered₂
    obtain ⟨view₁, maps₁, -⟩ := applyEachTickAction_other
      (by simpa [List.filter_eq_nil_iff] using filtered₁) run₁
    obtain ⟨view₂, maps₂, -⟩ := applyEachTickAction_other
      (by simpa [List.filter_eq_nil_iff] using filtered₂) run₂
    exact ⟨view₁.trans (hview.trans view₂.symm), maps₁.trans (agree.maps.trans maps₂.symm)⟩
  · have one₂ := hactions.symm.trans one₁
    rw [one₁, List.perm_singleton] at filtered₁
    rw [one₂, List.perm_singleton] at filtered₂
    have hflow : action.flow = flow := by
      have : action ∈ order₁.filter (·.flow = flow) := by
        rw [filtered₁]
        exact List.mem_singleton_self action
      simpa using (List.mem_filter.mp this).2
    obtain ⟨before₁, own₁, after₁, rfl, away₁, carried₁⟩ := applyEachTickAction_own filtered₁ run₁
    obtain ⟨before₂, own₂, after₂, rfl, away₂, carried₂⟩ := applyEachTickAction_own filtered₂ run₂
    obtain ⟨-, rest₁⟩ := planned_append.mp planned₁
    obtain ⟨-, rest₂⟩ := planned_append.mp planned₂
    obtain ⟨own₁, -⟩ := planned_append.mp rest₁
    obtain ⟨own₂, -⟩ := planned_append.mp rest₂
    rw [← hview, ← agree.maps] at carried₂
    subst hflow
    refine carried₁.unique carried₂ (planned_map.mpr own₁) (planned_map.mpr own₂) own ?_
    rw [LimitAction.key_eq, count_of_ne away₁, count_of_ne away₂]

end Two

/-! ### Both directions of an address -/

/-- Both directions of one address have a policy, and nothing is known of it. -/
def bothWays : Limiter :=
  { Limiter.new 1 with ranges := [⟨1, 1, ⟨some Limiter.receiveOnly, some Limiter.receiveOnly⟩⟩] }

section

open Limiter

/-- The counters of the address. -/
def bothCounted (bytes : ℕ) : Table UInt32 IpTotals :=
  Table.empty.insert 1 { rxBytes := bytes, txBytes := bytes }

theorem bothWays_knows : bothWays.KnowsAmong [(1, dirRx), (1, dirTx)] := by
  rintro ⟨ip, dir⟩ other
  refine ⟨?_, rfl, rfl⟩
  change lookupDir [⟨1, 1, ⟨some receiveOnly, some receiveOnly⟩⟩] Table.empty (ip, dir) = none
  by_cases hip : ip = 1
  · subst hip
    have hrx : dir ≠ dirRx := fun own => other (by simp [own])
    have htx : dir ≠ dirTx := fun own => other (by simp [own])
    simp [lookupDir, lookup, EffectivePolicy.dir, hrx, htx, EffectivePolicy.isEmpty]
  · have outside : ¬(1 ≤ ip ∧ ip ≤ 1) := fun h => hip (UInt32.le_antisymm h.2 h.1)
    simp [lookupDir, lookup, outside]

/-- Both directions have had a tick. -/
def bothSeen : Limiter := (bothWays.tick RollingWindow.reachesExactly 0 (bothCounted 0) [1]).1

/-- Both directions go over their thresholds. -/
def bothOver : Limiter × List LimitAction :=
  bothSeen.tick RollingWindow.reachesExactly 1 (bothCounted 125000) [1]

/-- The third operation on the sending direction fails: its policy cannot be armed. -/
def armFails (target : RollbackTarget) (n : ℕ) (_ : MapOp) : Option AnyError :=
  if target = .flow ⟨1, dirTx⟩ ∧ n = 2 then some ⟨["full"]⟩ else none

/-- Where arming the sending direction fails, the receiving one is limited as it is in any
tick that meets no failure. -/
theorem flows_isolated_installs : ∃ l₁' d₁' l₂' d₂',
    TickRun RollingWindow.reachesExactly armFails 1 (bothCounted 125000) bothSeen .empty l₁' d₁' ∧
      TickRun RollingWindow.reachesExactly (fun _ _ _ => none) 1 (bothCounted 125000) bothSeen .empty
        l₂' d₂' ∧
      ¬ l₁'.Limited (1, dirTx) ∧ (l₂'.view (1, dirRx)).state = some ⟨.limited, 1, 2, some receiveOnly⟩ ∧
      (d₂'.flowMaps (limitKey (1, dirRx))).policy.isSome := by
  have known : bothSeen.KnowsAmong [(1, dirRx), (1, dirTx)] :=
    bothWays_knows.tick 0 _ (List.nodup_singleton 1)
  have visits : Visits [1] (bothSeen.Evaluated (bothCounted 125000)) := by
    refine known.visits (List.nodup_singleton 1) (by simp) fun ip => ?_
    by_cases hip : ip = 1 <;> simp [bothCounted, hip]
  have run₁ : TickRun RollingWindow.reachesExactly armFails 1 (bothCounted 125000) bothSeen .empty
      _ _ := applyTickActions_tickRun visits
        (runs_exec MapOp.exec (applyTickActions bothOver.1 bothOver.2)
          (fun k => if k = 5 then some ⟨["full"]⟩ else none) .empty)
        ⟨rfl, rfl, rfl, rfl, rfl, rfl, rfl, trivial⟩
  obtain ⟨l₂', d₂', run₂⟩ := exists_tickRun RollingWindow.reachesExactly (fun _ _ _ => none) 1 _
    visits .empty
  have own : armFails (.flow (limitKey (1, dirRx))) = fun _ _ => none := by
    have apart : RollbackTarget.flow (limitKey (1, dirRx)) ≠ .flow ⟨1, dirTx⟩ := by decide
    funext n op
    exact if_neg fun h => apart h.1
  obtain ⟨view, maps⟩ :=
    flows_isolated ⟨rfl, rfl, rfl, rfl, rfl, rfl, rfl⟩ (.inl (.inl rfl)) own run₁ run₂
  refine ⟨_, _, l₂', d₂', run₁, run₂, fun limited => ?_, view ▸ rfl, maps ▸ rfl⟩
  obtain ⟨s, hs, phase⟩ := limited
  obtain rfl : {} = s := Option.some.inj hs
  cases phase

end

/-! ### The other direction of an address that is not counted -/

/-- The address has sent before, and has a window for that direction. -/
def hasSent : Limiter :=
  { bothWays with windows := Table.empty.insert (1, dirTx) (RollingWindow.new 1 1) }

theorem hasSent_evaluated {totals : Table UInt32 IpTotals}
    (counted : ∀ ip, (totals ip).isSome → ip = 1) : Visits [1] (hasSent.Evaluated totals) := by
  refine ⟨List.nodup_singleton 1, fun ip => ⟨?_, ?_⟩⟩
  · intro hip
    obtain rfl := List.mem_singleton.mp hip
    exact Or.inr ⟨dirTx, Or.inl rfl⟩
  · intro h
    rcases h with hip | ⟨dir, window | ⟨s, hs, -⟩⟩
    · exact List.mem_singleton.mpr (counted ip hip)
    · by_contra hne
      have absent : hasSent.windows (ip, dir) = none :=
        Table.insert_of_ne fun heq => hne (List.mem_singleton.mpr (congrArg Prod.fst heq))
      rw [absent] at window
      cases window
    · cases hs

theorem bothWays_evaluated {totals : Table UInt32 IpTotals} {ips : List UInt32}
    (distinct : ips.Nodup) (counted : ∀ ip, (totals ip).isSome ↔ ip ∈ ips) :
    Visits ips (bothWays.Evaluated totals) := by
  refine ⟨distinct, fun ip => ⟨fun hip => Or.inl ((counted ip).mpr hip), ?_⟩⟩
  intro h
  rcases h with hip | ⟨dir, window | ⟨s, hs, -⟩⟩
  · exact (counted ip).mp hip
  · cases window
  · cases hs

theorem agree_received (totals : Table UInt32 IpTotals) :
    AgreeOn (1, dirRx) hasSent bothWays totals totals .empty .empty :=
  ⟨rfl, rfl, rfl, rfl, rfl, rfl, rfl⟩

/-- Where no counter is known of the address, the window of the one direction makes the
tick open a window for the other. -/
theorem sibling_window_matters : ∃ l₁' l₂' d₁' d₂',
    AgreeOn (1, dirRx) hasSent bothWays Table.empty Table.empty .empty .empty ∧
      TickRun RollingWindow.reachesExactly (fun _ _ _ => none) 1 Table.empty hasSent .empty l₁' d₁' ∧
      TickRun RollingWindow.reachesExactly (fun _ _ _ => none) 1 Table.empty bothWays .empty l₂' d₂' ∧
      l₁'.windows (1, dirRx) ≠ l₂'.windows (1, dirRx) := by
  have visits₁ : Visits [1] (hasSent.Evaluated Table.empty) := hasSent_evaluated (by simp)
  have visits₂ : Visits [] (bothWays.Evaluated Table.empty) :=
    bothWays_evaluated List.nodup_nil (by simp)
  have none₁ : (hasSent.tick RollingWindow.reachesExactly 1 Table.empty [1]).2 = [] := by
    rfl
  have run₁ : Runs MapOp.exec (applyEachTickAction
      (hasSent.tick RollingWindow.reachesExactly 1 Table.empty [1]).1 []) .empty []
      ((hasSent.tick RollingWindow.reachesExactly 1 Table.empty [1]).1, []) .empty := .done _ _
  have run₂ : Runs MapOp.exec (applyEachTickAction
      (bothWays.tick RollingWindow.reachesExactly 1 Table.empty []).1 []) .empty []
      ((bothWays.tick RollingWindow.reachesExactly 1 Table.empty []).1, []) .empty := .done _ _
  refine ⟨_, _, _, _, agree_received _,
    ⟨[1], [], [], [], visits₁, by rw [none₁], run₁, trivial⟩,
    ⟨[], [], [], [], visits₂, .refl _, run₂, trivial⟩, ?_⟩
  decide

end VmWatcher

import VmWatcher.Core.Proofs.Enforced
import VmWatcher.Daemon.Proofs.Frame

/-!
# The limiter and the maps agree on who is limited

After every tick and every reload each armed flow is LIMITED, whatever failed, and as
long as no rollback step has failed each LIMITED flow is armed with exactly the policy
the limiter takes it to be limited by.
-/

namespace VmWatcher

open OpProg

/-- The limit-map key of a flow. -/
def limitKey (flow : FlowKey) : LimitKey := ⟨flow.1, flow.2⟩

theorem limitKey_injective {flow flow' : FlowKey} (h : limitKey flow = limitKey flow') :
    flow = flow' :=
  Prod.ext (congrArg LimitKey.ipv4 h) (congrArg LimitKey.direction h)

theorem LimitAction.key_eq (action : LimitAction) : action.key = limitKey action.flow := rfl

/-- A list of actions leaves a flow as it is when none of them is about it. -/
theorem foldl_carryOut_other {actions : List LimitAction} {flow : FlowKey}
    (h : actions.filter (·.flow = flow) = []) (σ : Shape) :
    (actions.foldl Shape.carryOut σ).flow (limitKey flow) = σ.flow (limitKey flow) := by
  induction actions generalizing σ with
  | nil => rfl
  | cons a actions ih =>
    rw [List.filter_cons] at h
    split at h
    · cases h
    next hne =>
      have hne : a.flow ≠ flow := by simpa using hne
      refine (ih h _).trans (Shape.onFlow_flow_of_ne fun heq => hne ?_)
      exact (limitKey_injective heq).symm

/-- A list of actions settles a flow on the policy of the one action that is about it. -/
theorem foldl_carryOut_own {actions : List LimitAction} {flow : FlowKey} {action : LimitAction}
    (h : actions.filter (·.flow = flow) = [action]) (σ : Shape) :
    (actions.foldl Shape.carryOut σ).flow (limitKey flow) = .settled action.policy := by
  induction actions generalizing σ with
  | nil => cases h
  | cons a actions ih =>
    rw [List.filter_cons] at h
    split at h
    next heq =>
      obtain ⟨rfl, hrest⟩ := List.cons.inj h
      obtain rfl : a.flow = flow := by simpa using heq
      exact (foldl_carryOut_other hrest _).trans Shape.onFlow_flow_self
    next => exact ih h _

/-- The actions on one flow, once removes go first. -/
theorem filter_removesFirst (actions : List LimitAction) (flow : FlowKey) :
    (actions.filter LimitAction.isRemove ++
        actions.filter (!LimitAction.isRemove ·)).filter (·.flow = flow) =
      (actions.filter (·.flow = flow)).filter LimitAction.isRemove ++
        (actions.filter (·.flow = flow)).filter (!LimitAction.isRemove ·) := by
  rw [List.filter_append, List.filter_comm, List.filter_comm (fun a => !LimitAction.isRemove a)]

theorem Shape.carryOutAll_own {actions : List LimitAction} {flow : FlowKey} {action : LimitAction}
    (h : actions.filter (·.flow = flow) = [action]) (σ : Shape) :
    (σ.carryOutAll actions).flow (limitKey flow) = .settled action.policy := by
  refine foldl_carryOut_own ?_ σ
  rw [filter_removesFirst, h]
  cases action <;> rfl

/-! ### One flow -/

/-- The limiter and the maps agree on a flow. -/
structure AgreesAt (clean : Bool) (l : Limiter) (σ : Shape) (flow : FlowKey) : Prop where
  limited : ∀ p, (σ.flow (limitKey flow)).policy = some p → (l.enforced flow).isSome
  settled : clean → σ.flow (limitKey flow) = .settled ((l.enforced flow).map DirPolicy.installed)

/-- The limiter is ahead of the maps by an action that is still to be carried out: they
agree once it succeeded, and they agree when it failed and was reverted. -/
structure PendingAt (clean : Bool) (l : Limiter) (σ : Shape) (action : LimitAction) : Prop where
  before : AgreesAt clean (l.revertFailedAction action) σ action.flow
  enforces : action.policy = (l.enforced action.flow).map DirPolicy.installed
  remove_limited : action.policy = none →
    ((l.revertFailedAction action).enforced action.flow).isSome
  install_normal : action.policy ≠ none →
    (l.revertFailedAction action).enforced action.flow = none

section Flow

variable {clean : Bool} {l l' : Limiter} {σ σ' : Shape} {flow : FlowKey}

/-- Agreement on a flow is about its entries alone. -/
theorem AgreesAt.congr (h : AgreesAt clean l σ flow) (limiter : l'.enforced flow = l.enforced flow)
    (maps : σ'.flow (limitKey flow) = σ.flow (limitKey flow)) : AgreesAt clean l' σ' flow := by
  obtain ⟨limited, settled⟩ := h
  rw [← limiter, ← maps] at settled
  rw [← maps, ← limiter] at limited
  exact ⟨limited, settled⟩

theorem AgreesAt.weaken {more : Bool} (h : AgreesAt clean l σ flow) :
    AgreesAt (clean && more) l σ flow :=
  ⟨h.limited, fun hclean => h.settled (Bool.and_eq_true_iff.mp hclean).1⟩

/-- A revert is about its own flow. -/
theorem enforced_revertFailedAction (l : Limiter) (action : LimitAction) (flow : FlowKey) :
    (l.revertFailedAction action).enforced flow =
      if flow = action.flow then ((l.view flow).revert action).enforced else l.enforced flow := by
  rw [Limiter.enforced, Limiter.view_revertFailedAction]
  split <;> rfl

theorem enforced_revert_comm {action action' : LimitAction} (h : action'.flow ≠ action.flow) :
    ((l.revertFailedAction action).revertFailedAction action').enforced action'.flow =
      (l.revertFailedAction action').enforced action'.flow := by
  rw [enforced_revertFailedAction, if_pos rfl, Limiter.view_revertFailedAction, if_neg h,
    enforced_revertFailedAction, if_pos rfl]

theorem PendingAt.congr {action : LimitAction} (h : PendingAt clean l σ action)
    (limiter : l'.enforced action.flow = l.enforced action.flow)
    (reverted : (l'.revertFailedAction action).enforced action.flow =
      (l.revertFailedAction action).enforced action.flow)
    (maps : σ'.flow (limitKey action.flow) = σ.flow (limitKey action.flow)) :
    PendingAt clean l' σ' action where
  before := h.before.congr reverted maps
  enforces := by rw [limiter]; exact h.enforces
  remove_limited := by rw [reverted]; exact h.remove_limited
  install_normal := by rw [reverted]; exact h.install_normal

theorem PendingAt.weaken {more : Bool} {action : LimitAction} (h : PendingAt clean l σ action) :
    PendingAt (clean && more) l σ action :=
  ⟨h.before.weaken, h.enforces, h.remove_limited, h.install_normal⟩

end Flow

/-! ### The actions of a tick -/

/-- In the middle of `apply_tick_actions`, with these actions still to come. -/
structure Between (clean : Bool) (l : Limiter) (σ : Shape) (actions : List LimitAction) :
    Prop where
  distinct : (actions.map LimitAction.flow).Nodup
  pending : ∀ action ∈ actions, PendingAt clean l σ action
  others : ∀ flow, flow ∉ actions.map LimitAction.flow → AgreesAt clean l σ flow

section Tick

variable {clean : Bool} {l : Limiter} {σ σ' : Shape} {action : LimitAction}
variable {actions : List LimitAction}

theorem Between.settled (h : Between clean l σ actions) (hclean : clean) : σ.Settled := by
  intro key
  have hkey : key = limitKey (key.ipv4, key.direction) := rfl
  by_cases hmem : (key.ipv4, key.direction) ∈ actions.map LimitAction.flow
  · obtain ⟨action, haction, hflow⟩ := List.mem_map.mp hmem
    have := (h.pending action haction).before.settled hclean
    rw [hflow, ← hkey] at this
    rw [this]
    exact FlowShape.settled_settled _
  · have := (h.others _ hmem).settled hclean
    rw [← hkey] at this
    rw [this]
    exact FlowShape.settled_settled _

/-- An install that is still to be carried out finds the flow without a limit. -/
theorem PendingAt.unarmed (own : PendingAt clean l σ action) (install : action.policy ≠ none) :
    (σ.flow (limitKey action.flow)).policy = none := by
  cases before : (σ.flow (limitKey action.flow)).policy with
  | none => rfl
  | some q =>
    have := own.before.limited q before
    rw [own.install_normal install] at this
    cases this

section Outcome

variable {evs : List (Event MapOp AnyError Shape)} {r : Except (AnyError × RollbackReport) Unit}

/-- An action that succeeded leaves the maps where the limiter already is. -/
theorem PendingAt.done (own : PendingAt clean l σ action) (settled : clean → σ.Settled)
    (run : Runs Shape.exec (transact (runLimitActions [action])) σ evs r σ') (hok : r.isOk) :
    AgreesAt (clean && cleanEnd Prod.snd r) l σ' action.flow := by
  have outcome := limitActions_outcome run
  have carried : (σ.carryOutAll [action]).flow action.key = .settled action.policy :=
    Shape.carryOutAll_own (by simp) σ
  constructor
  · intro p hp
    have hpolicy := outcome.done hok action.key
    rw [carried, FlowShape.settled_policy, own.enforces] at hpolicy
    rw [← Option.isSome_map (f := DirPolicy.installed), ← hpolicy]
    exact Option.isSome_of_eq_some hp
  · intro hclean
    have hσ := settled (Bool.and_eq_true_iff.mp hclean).1
    have hflow := congrFun (outcome.settled hσ hok) action.key
    rw [carried, own.enforces] at hflow
    exact hflow

/-- An action that failed leaves the maps where the limiter goes back to. -/
theorem PendingAt.reverted (own : PendingAt clean l σ action) (settled : clean → σ.Settled)
    (run : Runs Shape.exec (transact (runLimitActions [action])) σ evs r σ')
    (hok : r.isOk = false) :
    AgreesAt (clean && cleanEnd Prod.snd r) (l.revertFailedAction action) σ' action.flow := by
  have outcome := limitActions_outcome run
  constructor
  · intro p hp
    by_cases hremove : action.policy = none
    · exact own.remove_limited hremove
    · have unarmed := own.unarmed hremove
      cases action with
      | remove ipv4 direction => exact absurd rfl hremove
      | install ipv4 direction rateBps burstBytes algorithm windowNs =>
        have bare := install_fails_unarmed run unarmed hok
        rw [show limitKey _ = (⟨ipv4, direction⟩ : LimitKey) from rfl, bare] at hp
        cases hp
  · intro hclean
    obtain ⟨hbefore, hend⟩ := Bool.and_eq_true_iff.mp hclean
    have hflow := congrFun (outcome.restored (settled hbefore) hend hok) (limitKey action.flow)
    rw [hflow]
    exact own.before.settled hbefore

/-- One action, in a transaction of its own. -/
theorem Between.step (h : Between clean l σ (action :: actions))
    (run : Runs Shape.exec (transact (runLimitActions [action])) σ evs r σ') :
    Between (clean && cleanEnd Prod.snd r) (if r.isOk then l else l.revertFailedAction action) σ'
      actions := by
  obtain ⟨fresh, distinct⟩ := List.nodup_cons.mp h.distinct
  have own := h.pending action List.mem_cons_self
  have elsewhere : ∀ flow, flow ≠ action.flow →
      σ'.flow (limitKey flow) = σ.flow (limitKey flow) := by
    intro flow hne
    apply (limitActions_outcome run).other
    intro a ha heq
    obtain rfl := List.mem_singleton.mp ha
    exact hne (limitKey_injective heq).symm
  have limiter : ∀ flow, flow ≠ action.flow →
      (if r.isOk then l else l.revertFailedAction action).enforced flow = l.enforced flow := by
    intro flow hne
    split
    · rfl
    · rw [enforced_revertFailedAction, if_neg hne]
  refine ⟨distinct, ?_, ?_⟩
  · intro a ha
    have hne : a.flow ≠ action.flow := fun heq =>
      fresh (heq ▸ List.mem_map_of_mem ha)
    refine (h.pending a (List.mem_cons_of_mem _ ha)).weaken.congr (limiter _ hne) ?_
      (elsewhere _ hne)
    split
    · rfl
    · exact enforced_revert_comm hne
  · intro flow hflow
    by_cases heq : flow = action.flow
    · subst heq
      cases hok : r.isOk with
      | true =>
        rw [if_pos rfl]
        exact own.done h.settled run hok
      | false =>
        rw [if_neg Bool.false_ne_true]
        exact own.reverted h.settled run hok
    · have hmem : flow ∉ (action :: actions).map LimitAction.flow := by
        intro hmem
        rcases List.mem_cons.mp hmem with heq' | hmem
        · exact heq heq'
        · exact hflow hmem
      exact (h.others flow hmem).weaken.congr (limiter _ heq) (elsewhere _ heq)

end Outcome

/-- An action is carried out, or it is reverted. -/
theorem applyTickAction_inv {S : Type} {eff : (op : MapOp) → S → op.Res × S} {s s' : S}
    {evs : List (Event MapOp AnyError S)} {l' : Limiter} {failures : List TickActionFailure}
    (run : Runs eff (applyTickAction l action) s evs (l', failures) s') :
    ∃ r, Runs eff (transact (runLimitActions [action])) s evs r s' ∧
      l' = (if r.isOk then l else l.revertFailedAction action) ∧
      failures.all (·.report.dataplaneConsistent) = cleanEnd Prod.snd r := by
  obtain ⟨evs₁, r, s₁, evs₂, first, rest, rfl⟩ := run.bind_inv
  cases r with
  | ok _ =>
    cases rest
    exact ⟨_, by rwa [List.append_nil], rfl, rfl⟩
  | error e =>
    cases rest
    exact ⟨_, by rwa [List.append_nil], rfl, by simp [cleanEnd]⟩

variable {reaches : RollingWindow → ℕ → Bool} {accepts : ValidatedConfig → Prop}
variable {pending : List LimitAction}

/-- All the actions of a tick, one after the other. -/
theorem Between.run {evs : List (Event MapOp AnyError Shape)} {l' : Limiter}
    {failures : List TickActionFailure} (h : Between clean l σ actions)
    (run : Runs Shape.exec (applyEachTickAction l actions) σ evs (l', failures) σ') :
    Between (clean && failures.all (·.report.dataplaneConsistent)) l' σ' [] := by
  induction actions generalizing clean l σ evs failures with
  | nil =>
    cases run
    rwa [List.all_nil, Bool.and_true]
  | cons action actions ih =>
    obtain ⟨evs₁, ⟨l₁, failures₁⟩, σ₁, evs₂, first, rest, rfl⟩ := run.bind_inv
    obtain ⟨r, one, rfl, hclean⟩ := applyTickAction_inv first
    obtain ⟨evs₃, ⟨l₂, failures₂⟩, σ₂, evs₄, second, last, rfl⟩ := rest.bind_inv
    cases last
    have hnext := ih (h.step one) second
    rwa [← hclean, Bool.and_assoc, ← List.all_append] at hnext

/-- Every action that is reverted is one of the tick's. -/
theorem reachable_applyEachTickAction {S : Type} {eff : (op : MapOp) → S → op.Res × S} {s s' : S}
    {evs : List (Event MapOp AnyError S)} {l' : Limiter} {failures : List TickActionFailure}
    (h : Limiter.Reachable reaches accepts false l pending) (sub : actions ⊆ pending)
    (run : Runs eff (applyEachTickAction l actions) s evs (l', failures) s') :
    Limiter.Reachable reaches accepts false l' pending := by
  induction actions generalizing l s evs failures with
  | nil =>
    cases run
    exact h
  | cons action actions ih =>
    obtain ⟨evs₁, ⟨l₁, failures₁⟩, s₁, evs₂, first, rest, rfl⟩ := run.bind_inv
    obtain ⟨r, -, rfl, -⟩ := applyTickAction_inv first
    obtain ⟨evs₃, ⟨l₂, failures₂⟩, s₂, evs₄, second, last, rfl⟩ := rest.bind_inv
    cases last
    refine ih ?_ (fun a ha => sub (List.mem_cons_of_mem _ ha)) second
    split
    · exact h
    · exact h.revert (sub List.mem_cons_self)

end Tick

/-! ### Ticks and reloads -/

/-- The limiter and the maps agree on every flow. -/
def Agrees (clean : Bool) (l : Limiter) (σ : Shape) : Prop := ∀ flow, AgreesAt clean l σ flow

section Steps

variable {reaches : RollingWindow → ℕ → Bool} {clean : Bool} {l : Limiter} {σ σ' : Shape}

theorem Agrees.settled (h : Agrees clean l σ) (hclean : clean) : σ.Settled := by
  intro key
  have := (h (key.ipv4, key.direction)).settled hclean
  change σ.flow key = _ at this
  rw [this]
  exact FlowShape.settled_settled _

variable (reaches) in
/-- After a tick the limiter is ahead of the maps by the tick's actions. -/
theorem Agrees.tick (h : Agrees clean l σ) (hok : l.Ok) (now : ℕ)
    (totals : Table UInt32 IpTotals) {ips : List UInt32} (distinct : ips.Nodup) :
    let r := l.tick reaches now totals ips
    Between clean r.1 σ
      (r.2.filter LimitAction.isRemove ++ r.2.filter (!LimitAction.isRemove ·)) := by
  intro r
  set actions := r.2.filter LimitAction.isRemove ++ r.2.filter (!LimitAction.isRemove ·)
    with hactions
  have decided := hok.tick_decides reaches now totals distinct
  have onFlow : ∀ flow, (actions.filter (·.flow = flow) = [] ∧
        r.1.enforced flow = l.enforced flow) ∨
      ∃ action, actions.filter (·.flow = flow) = [action] ∧
        (l.view flow).Decides (r.1.view flow) action := by
    intro flow
    rw [hactions, filter_removesFirst]
    rcases decided flow with ⟨hnone, same⟩ | ⟨action, hone, decides⟩
    · rw [hnone]
      exact Or.inl ⟨rfl, same⟩
    · rw [hone]
      exact Or.inr ⟨action, by cases action <;> rfl, decides⟩
  refine ⟨Limiter.nodup_flows ?_, ?_, ?_⟩
  · intro flow
    rcases onFlow flow with ⟨hnone, -⟩ | ⟨action, hone, -⟩
    · simp [hnone]
    · simp [hone]
  · intro action haction
    have hmem : action ∈ actions.filter (·.flow = action.flow) := by simpa using haction
    rcases onFlow action.flow with ⟨hnone, -⟩ | ⟨action', hone, decides⟩
    · rw [hnone] at hmem
      cases hmem
    · rw [hone] at hmem
      obtain rfl := List.mem_singleton.mp hmem
      have reverted : (r.1.revertFailedAction action).enforced action.flow =
          l.enforced action.flow := by
        rw [enforced_revertFailedAction, if_pos rfl]
        exact decides.reverts
      refine ⟨(h action.flow).congr reverted rfl, decides.enforces, ?_, ?_⟩
      · rw [reverted]
        exact decides.remove_limited
      · rw [reverted]
        exact decides.install_normal
  · intro flow hflow
    rcases onFlow flow with ⟨-, same⟩ | ⟨action, hone, -⟩
    · exact (h flow).congr same rfl
    · have hmem : action ∈ actions.filter (·.flow = flow) := by rw [hone]; exact List.mem_cons_self
      obtain ⟨haction, heq⟩ := List.mem_filter.mp hmem
      exact absurd (List.mem_map.mpr ⟨action, haction, of_decide_eq_true heq⟩) hflow

/-- A reload commits when all of its operations succeeded, and then the maps follow the
new limiter; otherwise they follow the old one. -/
theorem Agrees.reload {cfg : ValidatedConfig} {now : ℕ} {limited : List FlowKey}
    {plan : ReloadPlan} {r : Except (AnyError × RollbackReport) Unit} (h : Agrees clean l σ)
    (hok : l.Ok) (visits : Visits limited l.Limited)
    (hplan : l.planReload cfg now limited = .ok plan) (outcome : Outcome plan.actions σ r σ') :
    Agrees (clean && cleanEnd Prod.snd r) (if r.isOk then l.commitReload plan else l) σ' := by
  intro flow
  have untouched : plan.actions.filter (·.flow = flow) = [] →
      σ'.flow (limitKey flow) = σ.flow (limitKey flow) := by
    intro hnone
    apply outcome.other _
    intro a ha hkey
    have hmem : a ∈ plan.actions.filter (·.flow = flow) :=
      List.mem_filter.mpr ⟨ha, decide_eq_true (limitKey_injective hkey)⟩
    rw [hnone] at hmem
    cases hmem
  have decided := hok.reload_decides visits hplan flow
  cases hr : r.isOk with
  | true =>
    rw [if_pos rfl]
    have armed : (σ'.flow (limitKey flow)).policy =
        ((σ.carryOutAll plan.actions).flow (limitKey flow)).policy := outcome.done hr _
    rcases decided with ⟨hnone, same⟩ | ⟨action, hone, enforces, -⟩
    · refine ⟨?_, ?_⟩
      · intro p hp
        rw [untouched hnone] at hp
        have hbefore := (h flow).limited p hp
        rwa [← Option.isSome_map (f := DirPolicy.installed), ← same, Option.isSome_map] at hbefore
      · intro hclean
        rw [untouched hnone, same]
        exact (h flow).settled (Bool.and_eq_true_iff.mp hclean).1
    · refine ⟨?_, ?_⟩
      · intro p hp
        rw [armed, Shape.carryOutAll_own hone, FlowShape.settled_policy, enforces] at hp
        rw [← Option.isSome_map (f := DirPolicy.installed)]
        exact Option.isSome_of_eq_some hp
      · intro hclean
        have hσ := h.settled (Bool.and_eq_true_iff.mp hclean).1
        rw [outcome.settled hσ hr, Shape.carryOutAll_own hone, enforces]
  | false =>
    rw [if_neg Bool.false_ne_true]
    refine ⟨?_, ?_⟩
    · intro p hp
      rcases decided with ⟨hnone, -⟩ | ⟨action, -, -, limited⟩
      · rw [untouched hnone] at hp
        exact (h flow).limited p hp
      · exact limited
    · intro hclean
      obtain ⟨hbefore, hend⟩ := Bool.and_eq_true_iff.mp hclean
      rw [outcome.restored (h.settled hbefore) hend hr]
      exact (h flow).settled hbefore

end Steps

/-! ### Runs -/

namespace System.Reachable

variable {reaches : RollingWindow → ℕ → Bool} {starts : System → Prop} {s : System} {clean : Bool}

/-- The limiter goes through ticks, reverts within them, and reloads. -/
theorem limiter (hstarts : ∀ s, starts s → s.Starts) (h : Reachable reaches starts s clean) :
    ∃ pending, Limiter.Reachable reaches ValidatedConfig.Accepted false s.engine.limiter pending := by
  induction h with
  | start hs =>
    obtain ⟨now, plan, hplan, hlimiter⟩ := (hstarts _ hs).planned
    rw [hlimiter]
    exact ⟨_, .reload (.new _) (hstarts _ hs).accepted (Limiter.visits_new _) hplan⟩
  | tick _ visits run ih =>
    obtain ⟨pending, reached⟩ := ih
    refine ⟨_, reachable_applyEachTickAction (reached.tick _ _ visits) ?_ run⟩
    intro a ha
    rcases List.mem_append.mp ha with ha | ha
    · exact (List.mem_filter.mp ha).1
    · exact (List.mem_filter.mp ha).1
  | reload _ accepted visits hplan _ _ run ih =>
    obtain ⟨pending, reached⟩ := ih
    obtain ⟨_, r, _, _, -, rest, -⟩ := run.bind_inv
    cases r with
    | ok _ =>
      cases rest
      exact ⟨_, reached.reload accepted visits hplan⟩
    | error e =>
      cases rest
      exact ⟨_, reached⟩

theorem agrees (hstarts : ∀ s, starts s → s.Starts) (h : Reachable reaches starts s clean) :
    Agrees clean s.engine.limiter s.maps.shape := by
  induction h with
  | @start s hs =>
    intro flow
    have bare : s.maps.shape.flow (limitKey flow) = .settled none := by
      refine FlowShape.ext (congrFun (hstarts s hs).unarmed _) (funext fun a => ?_)
      cases a with
      | state => exact congrArg Option.isSome (congrFun (hstarts s hs).noState (limitKey flow))
      | ring => exact congrArg Option.isSome (congrFun (hstarts s hs).noRing (limitKey flow))
    obtain ⟨now, plan, hplan, hlimiter⟩ := (hstarts s hs).planned
    have unlimited : s.engine.limiter.enforced flow = none := by
      rw [hlimiter, Limiter.enforced,
        Limiter.commitReload_view (Limiter.new_ok _).knowsApplied (Limiter.visits_new _) hplan flow]
      cases lookupDir plan.newRanges plan.newOverrides flow <;> rfl
    refine ⟨?_, ?_⟩
    · intro p hp
      rw [bare] at hp
      cases hp
    · intro _
      rw [bare, unlimited]
      rfl
  | @tick s clean now totals ips _ _ _ _ prior visits run ih =>
    obtain ⟨pending, reached⟩ := prior.limiter hstarts
    have between := ih.tick reaches reached.ok.1 now totals visits.nodup
    have ended := between.run (Dataplane.runs_shape run)
    exact fun flow => ended.others flow List.not_mem_nil
  | reload prior _ visits hplan _ _ run ih =>
    obtain ⟨pending, reached⟩ := prior.limiter hstarts
    obtain ⟨_, r, _, _, first, rest, -⟩ := run.bind_inv
    have outcome := reloadSteps_outcome (Dataplane.runs_shape first)
    have next := ih.reload reached.ok.1 visits hplan outcome
    cases r with
    | ok _ =>
      cases rest
      exact next
    | error e =>
      cases rest
      exact next

end System.Reachable

/-- After every tick and every reload: whatever failed, each armed flow is LIMITED; and
as long as no rollback step has failed, each LIMITED flow is armed with its applied
policy. -/
theorem limiter_and_maps_agree {reaches : RollingWindow → ℕ → Bool} {s : System} {clean : Bool}
    (h : System.Reachable reaches System.Starts s clean) :
    (∀ flow entry, s.maps.policies (limitKey flow) = some entry →
      s.engine.limiter.Limited flow) ∧
    (clean = true → ∀ flow, s.engine.limiter.Limited flow →
      ∃ state np entry, s.engine.limiter.states flow = some state ∧ state.applied = some np ∧
        s.maps.policies (limitKey flow) = some entry ∧ entry.enabled = 1 ∧
        entry.algorithm = np.algorithm ∧ entry.rateBps = np.limitBps ∧
        entry.burstBytes = np.burstBytes ∧ entry.windowNs = np.limitWindowSecs * 1000000000) := by
  obtain ⟨pending, reached⟩ := h.limiter fun _ => id
  have hok := reached.ok.1
  have agrees := h.agrees fun _ => id
  refine ⟨?_, ?_⟩
  · intro flow entry hentry
    exact (hok.limited_iff flow).mpr ((agrees flow).limited entry hentry)
  · intro hclean flow hlimited
    obtain ⟨state, hstate, hphase⟩ := hlimited
    obtain ⟨np, hpolicy, enforces, henforced⟩ := (hok flow).enforced_limited hstate hphase
    have hentry := congrArg FlowShape.policy ((agrees flow).settled hclean)
    rw [Limiter.enforced, henforced] at hentry
    exact ⟨state, np, np.installed, hstate, enforces.applied, hentry, rfl, rfl, rfl, rfl,
      (reached.bounded flow np hpolicy).windowNs_installed⟩

open Limiter in
/-- The daemon on the one-address file after a second over the threshold. -/
theorem limitedSystem_reachable : ∃ maps, System.Reachable RollingWindow.reachesExactly
    System.Starts ⟨⟨(limitedRun receiveOnly).1, oneAddress receiveLimit, 1⟩, maps⟩ true := by
  have planned : (new 1).planReload (oneAddress receiveLimit) 0 [] =
      .ok (indexPlan ⟨some receiveOnly, none⟩) := rfl
  have known := indexPlan_knowsOnly receiveOnly
  have known' := (baselineRun_reachable false accepted_receiveLimit planned).2
  have started : System.Starts ⟨⟨(new 1).commitReload (indexPlan ⟨some receiveOnly, none⟩),
      oneAddress receiveLimit, 1⟩, Dataplane.empty⟩ :=
    ⟨accepted_receiveLimit, ⟨0, _, planned, rfl⟩, rfl, rfl, rfl⟩
  have quiet : (baselineRun receiveOnly).2 = [] := by rfl
  have limits : (limitedRun receiveOnly).2 = [.installOf (1, dirRx) receiveOnly] := by
    rfl
  have first : Runs MapOp.exec (applyTickActions (baselineRun receiveOnly).1
      (baselineRun receiveOnly).2) Dataplane.empty [] ((baselineRun receiveOnly).1, [])
      Dataplane.empty := by
    rw [quiet]
    exact .done _ _
  have second : ∃ evs maps, Runs MapOp.exec (applyTickActions (limitedRun receiveOnly).1
      (limitedRun receiveOnly).2) Dataplane.empty evs ((limitedRun receiveOnly).1, []) maps := by
    rw [limits]
    exact ⟨_, _, runs_exec MapOp.exec (applyTickActions (limitedRun receiveOnly).1
      [.installOf (1, dirRx) receiveOnly]) (fun _ => none) Dataplane.empty⟩
  obtain ⟨evs, maps, second⟩ := second
  have reached := (System.Reachable.start started).tick (known.visits {}) first
  exact ⟨maps, reached.tick (known'.visits { rxBytes := 125000 }) second⟩

open Limiter in
theorem limiter_and_maps_agree_limited : ∃ maps entry,
    System.Reachable RollingWindow.reachesExactly System.Starts
      ⟨⟨(limitedRun receiveOnly).1, oneAddress receiveLimit, 1⟩, maps⟩ true ∧
    maps.policies (limitKey (1, dirRx)) = some entry ∧ entry.rateBps = 1000000 ∧
    entry.burstBytes = 100000 ∧ entry.windowNs = 0 := by
  obtain ⟨maps, reached⟩ := limitedSystem_reachable
  have limited : (limitedRun receiveOnly).1.Limited (1, dirRx) := ⟨_, rfl, rfl⟩
  obtain ⟨state, np, entry, hstate, happlied, hentry, -, -, hrate, hburst, hwindow⟩ :=
    (limiter_and_maps_agree reached).2 rfl (1, dirRx) limited
  have applied : ((limitedRun receiveOnly).1.states (1, dirRx)).bind DirState.applied =
      some receiveOnly := by rfl
  rw [hstate, Option.bind_some, happlied] at applied
  obtain rfl := Option.some.inj applied
  exact ⟨maps, entry, reached, hentry, hrate, hburst, hwindow⟩

end VmWatcher

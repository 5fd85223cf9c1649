import VmWatcher.Daemon.Proofs.Agreement
import VmWatcher.Daemon.Proofs.Room

/-!
# When a reload's actions fit in every order

Removes need no space, and an install needs the artifact of its policy before the other
flows that switch away from it have given theirs back. Whatever the order, all installs
fit exactly when each artifact map can hold the flows that use it before or after the
reload, all at once (`reload_fits_in_every_order_iff`).
-/

namespace VmWatcher

open OpProg

/-! ### Actions that fit -/

section Succeeds

variable {cap : Capacity} {σ : Shape} {journal : TxJournal}

/-- What fits succeeds. -/
theorem wpUnder_perform_of_fits {β : Type} {op : MapOp} {f : op.Res → Tx β}
    {post : Except AnyError β → TxJournal → Shape → Prop} (fits : cap.Fits op σ)
    (h : Tx.wpUnder Shape.exec cap.Decides (f (Shape.exec op σ).1) post journal
      (Shape.exec op σ).2) :
    Tx.wpUnder Shape.exec cap.Decides (Tx.perform op >>= f) post journal σ :=
  wpUnder_call_of_only (Capacity.Decides.succeeds fits) h

theorem wpUnder_perform_last_of_fits {op : MapOp}
    {post : Except AnyError op.Res → TxJournal → Shape → Prop} (fits : cap.Fits op σ)
    (h : post (.ok (Shape.exec op σ).1) journal (Shape.exec op σ).2) :
    Tx.wpUnder Shape.exec cap.Decides (Tx.perform op) post journal σ :=
  wpUnder_call_of_only (Capacity.Decides.succeeds fits) h

/-- Nothing but an insert fails. -/
theorem removeLimit_succeeds (key : LimitKey) :
    Tx.wpUnder Shape.exec cap.Decides (removeLimit key) (fun r _ _ => r.isOk) journal σ := by
  rw [removeLimit]
  refine wpUnder_perform_of_fits trivial ?_
  cases h : (σ.flow key).policy with
  | none =>
    simp only [Shape.exec, h]
    rfl
  | some old =>
    simp only [Shape.exec, h]
    rw [Tx.wpUnder_journaled_bind]
    refine wpUnder_perform_of_fits trivial ?_
    rw [Tx.wpUnder_journaled_bind]
    refine wpUnder_perform_of_fits trivial ?_
    exact wpUnder_perform_last_of_fits trivial rfl

theorem disarmDisplaced_succeeds (key : LimitKey) (policy : LimitPolicy) :
    Tx.wpUnder Shape.exec cap.Decides (disarmDisplaced key policy (σ.flow key).policy)
      (fun r _ σ' => r.isOk ∧ σ' = σ.onFlow key (.displaced policy)) journal σ := by
  cases h : (σ.flow key).policy with
  | none =>
    have same : (σ.flow key).displaced policy = σ.flow key := by
      simp only [FlowShape.displaced, h]
    exact ⟨rfl, (Shape.onFlow_eq_self same).symm⟩
  | some old =>
    rw [disarmDisplaced]
    refine wpUnder_perform_of_fits trivial ?_
    rw [Tx.wpUnder_journaled_bind]
    by_cases differs : old.algorithm ≠ policy.algorithm
    · rw [if_pos differs]
      refine wpUnder_perform_last_of_fits trivial ⟨rfl, ?_⟩
      simp only [Shape.exec, Shape.onFlow_onFlow]
      refine Shape.onFlow_congr ?_
      simp only [FlowShape.displaced, h, if_pos differs]
    · rw [if_neg differs]
      refine ⟨rfl, Shape.onFlow_congr ?_⟩
      simp only [FlowShape.displaced, h, if_neg differs]

/-- Taking down a displaced policy frees what it frees. -/
theorem holding_displaced (key : LimitKey) (policy : LimitPolicy) (a : Artifact) :
    (σ.onFlow key (.displaced policy)).holding a ⊆ σ.holding a := by
  intro k hk
  by_cases h : k = key
  · subst h
    have hk : ((σ.flow k).displaced policy).artifacts a = true := by
      simpa [Shape.holding] using hk
    change (σ.flow k).artifacts a = true
    unfold FlowShape.displaced at hk
    split at hk
    · exact hk
    · split at hk
      next old _ _ =>
        by_cases ha : a = artifactOf old.algorithm
        · simp [FlowShape.clear, ha] at hk
        · simpa [FlowShape.clear, ha] using hk
      · exact hk
  · simpa [Shape.holding, h] using hk

/-- An install over an armed policy fits where there is room for its artifact. -/
theorem installLimit_succeeds (key : LimitKey) (policy : LimitPolicy) (journal : TxJournal)
    (holds : cap.HoldsFlows σ) (armed : key ∈ σ.armed)
    (room : (insert key (σ.holding (artifactOf policy.algorithm))).ncard ≤
      cap.artifacts (artifactOf policy.algorithm)) :
    Tx.wpUnder Shape.exec cap.Decides (installLimit key policy) (fun r _ _ => r.isOk)
      journal σ := by
  have write : cap.Fits (.writeFreshState key policy.algorithm)
      (σ.onFlow key (.displaced policy)) := by
    refine room_of_insert ((Set.ncard_le_ncard ?_).trans room)
    exact Set.insert_subset_insert (holding_displaced key policy _)
  have arm : cap.Fits (.armPolicy key policy)
      ((σ.onFlow key (.displaced policy)).onFlow key (.write (artifactOf policy.algorithm))) := by
    refine room_of_insert ((Set.ncard_le_ncard ?_).trans holds.armed)
    apply Set.insert_subset armed
    intro k hk
    by_cases h : k = key
    · exact h ▸ armed
    · simpa [Shape.armed, h] using hk
  rw [installLimit]
  refine wpUnder_perform_of_fits trivial ?_
  rw [Tx.wpUnder_journaled_bind, Tx.wpUnder_bind]
  refine Tx.wpUnder_mono (disarmDisplaced_succeeds key policy) ?_
  intro r journal' _ given
  obtain ⟨ok, rfl⟩ := given
  cases r with
  | error e => exact Bool.noConfusion ok
  | ok _ =>
    refine wpUnder_perform_of_fits write ?_
    rw [Tx.wpUnder_journaled_bind]
    exact wpUnder_perform_of_fits arm rfl

theorem removePass_succeeds (actions : List LimitAction) (journal : TxJournal) (σ : Shape) :
    Tx.wpUnder Shape.exec cap.Decides (removePass actions) (fun r _ _ => r.isOk) journal σ := by
  induction actions generalizing journal σ with
  | nil => rfl
  | cons action actions ih =>
    cases action with
    | install => exact ih journal σ
    | remove ipv4 direction =>
      rw [removePass, Tx.wpUnder_bind, Tx.wpUnder_context]
      refine Tx.wpUnder_mono (removeLimit_succeeds ⟨ipv4, direction⟩) fun r journal' σ' ok => ?_
      cases r with
      | error e => exact Bool.noConfusion ok
      | ok _ => exact ih journal' σ'

/-- The flows that hold an artifact and those that the actions are going to give one. -/
def needs (σ : Shape) (actions : List LimitAction) (a : Artifact) : Set LimitKey :=
  σ.holding a ∪
    {k | ∃ action ∈ actions, action.key = k ∧
      ∃ p, action.policy = some p ∧ artifactOf p.algorithm = a}

theorem needs_cons_subset (σ : Shape) (action : LimitAction) (actions : List LimitAction)
    (a : Artifact) : needs σ actions a ⊆ needs σ (action :: actions) a := by
  intro k h
  rcases h with hk | ⟨action', hmem, hkey, hp⟩
  · exact Or.inl hk
  · exact Or.inr ⟨action', List.mem_cons_of_mem _ hmem, hkey, hp⟩

/-- An action that is carried out holds what it was going to need. -/
theorem needs_carryOut_subset (σ : Shape) (action : LimitAction) (actions : List LimitAction)
    (a : Artifact) : needs (σ.carryOut action) actions a ⊆ needs σ (action :: actions) a := by
  intro k given
  rcases given with hk | ⟨action', hmem, hkey, hp⟩
  · by_cases h : k = action.key
    · subst h
      have hk : (FlowShape.settled action.policy).artifacts a = true := by
        simpa [Shape.holding, Shape.carryOut] using hk
      obtain ⟨p, hpolicy, ha⟩ := Option.any_eq_true _ _ |>.mp hk
      exact Or.inr ⟨action, List.mem_cons_self, rfl, p, hpolicy, by simpa using ha⟩
    · exact Or.inl (by simpa [Shape.holding, Shape.carryOut, h] using hk)
  · exact Or.inr ⟨action', List.mem_cons_of_mem _ hmem, hkey, hp⟩

/-- Installs over armed policies fit where there is room for all they need. -/
theorem installPass_succeeds (actions : List LimitAction) (journal : TxJournal) (σ : Shape)
    (hσ : σ.Settled) (holds : cap.HoldsFlows σ)
    (armed : ∀ action ∈ actions, action.policy ≠ none → action.key ∈ σ.armed)
    (room : ∀ a, (needs σ actions a).ncard ≤ cap.artifacts a) :
    Tx.wpUnder Shape.exec cap.Decides (installPass actions) (fun r _ _ => r.isOk) journal σ := by
  induction actions generalizing journal σ with
  | nil => rfl
  | cons action actions ih =>
    cases action with
    | remove ipv4 direction =>
      apply ih journal σ hσ holds
      · intro action hmem
        exact armed action (List.mem_cons_of_mem _ hmem)
      · intro a
        have fewer := needs_cons_subset σ (.remove ipv4 direction) actions a
        exact (Set.ncard_le_ncard fewer).trans (room a)
    | install ipv4 direction rateBps burstBytes algorithm windowNs =>
      set action : LimitAction := .install ipv4 direction rateBps burstBytes algorithm windowNs
        with haction
      let policy : LimitPolicy := { enabled := 1, algorithm, rateBps, burstBytes, windowNs }
      have hpolicy : action.policy = some policy := rfl
      have own : insert action.key (σ.holding (artifactOf algorithm)) ⊆
          needs σ (action :: actions) (artifactOf algorithm) := by
        refine Set.insert_subset ?_ fun k hk => Or.inl hk
        exact Or.inr ⟨action, List.mem_cons_self, rfl, policy, hpolicy, rfl⟩
      have succeeds := installLimit_succeeds ⟨ipv4, direction⟩ policy journal holds
        (armed action List.mem_cons_self (by simp [hpolicy]))
        ((Set.ncard_le_ncard own).trans (room _))
      have ends := (wp_installLimit ⟨ipv4, direction⟩ policy journal σ).under cap.Decides
      have keeps := holdsFlows_under Capacity.Decides.space
        (installLimit ⟨ipv4, direction⟩ policy) journal holds
      rw [haction, installPass, Tx.wpUnder_bind, Tx.wpUnder_context]
      refine Tx.wpUnder_mono (Tx.wpUnder_and succeeds (Tx.wpUnder_and ends keeps)) ?_
      intro r journal' σ' given
      obtain ⟨ok, hend, holds'⟩ := given
      cases r with
      | error e => exact Bool.noConfusion ok
      | ok _ =>
        have done : σ' = σ.carryOut action := hend.settles hσ rfl
        subst done
        apply ih journal' _ (hσ.carryOut action) holds'
        · intro action' hmem hne
          have before := armed action' (List.mem_cons_of_mem _ hmem) hne
          by_cases h : action'.key = action.key
          · simp [Shape.armed, Shape.carryOut, h, hpolicy]
          · simpa [Shape.armed, Shape.carryOut, h] using before
        · intro a
          exact (Set.ncard_le_ncard (needs_carryOut_subset σ action actions a)).trans (room a)

/-- One list of actions after another. -/
theorem wpUnder_installPass_append {may : MapOp → Option AnyError → Shape → Prop}
    {post : Except AnyError Unit → TxJournal → Shape → Prop} :
    ∀ (first rest : List LimitAction) (journal : TxJournal) (σ : Shape),
      Tx.wpUnder Shape.exec may (installPass first) (fun r journal σ =>
        match r with
        | .ok _ => Tx.wpUnder Shape.exec may (installPass rest) post journal σ
        | .error e => post (.error e) journal σ) journal σ →
      Tx.wpUnder Shape.exec may (installPass (first ++ rest)) post journal σ := by
  intro first rest
  induction first with
  | nil =>
    intro _ _ h
    exact h
  | cons action first ih =>
    intro journal σ h
    cases action with
    | remove => exact ih journal σ h
    | install ipv4 direction rateBps burstBytes algorithm windowNs =>
      rw [installPass, Tx.wpUnder_bind] at h
      rw [List.cons_append, installPass, Tx.wpUnder_bind]
      refine Tx.wpUnder_mono h fun r journal' σ' h => ?_
      cases r with
      | error e => exact h
      | ok _ => exact ih journal' σ' h

end Succeeds

/-! ### What a plan does to a flow -/

/-- The maps hold what the limiter takes them to hold, and nothing else. -/
structure Dataplane.Matches (d : Dataplane) (l : Limiter) : Prop where
  hard : d.Hard
  noOrphans : d.NoOrphans
  armed : ∀ flow, d.policies (limitKey flow) = (l.enforced flow).map DirPolicy.installed

theorem Dataplane.Matches.settled {d : Dataplane} {l : Limiter} (h : d.Matches l) :
    d.shape.Settled := d.shape_settled_iff.mpr ⟨h.hard, h.noOrphans⟩

theorem Dataplane.Matches.flow {d : Dataplane} {l : Limiter} (h : d.Matches l) (flow : FlowKey) :
    d.shape.flow (limitKey flow) = .settled ((l.enforced flow).map DirPolicy.installed) := by
  rw [h.settled (limitKey flow)]
  exact congrArg FlowShape.settled (h.armed flow)

namespace Limiter

/-- A LIMITED flow that stays limited over a reload, under `np` instead of `old`. -/
structure Keeps (l : Limiter) (ranges : List PolicyRange)
    (overrides : Table UInt32 EffectivePolicy) (now : ℕ) (flow : FlowKey) (old np : DirPolicy) :
    Prop where
  limited : ∃ s, l.states flow = some s ∧ s.phase = .limited ∧ s.applied = some old ∧
    now < u64SaturatingAdd s.limitedSince np.limitDurationSecs
  policy : lookupDir ranges overrides flow = some np

/-- The flows that use an artifact map before or after the reload, of those that stay
limited. -/
def usersOf (l : Limiter) (ranges : List PolicyRange) (overrides : Table UInt32 EffectivePolicy)
    (now : ℕ) (a : Artifact) : Set LimitKey :=
  {key | ∃ flow old np, limitKey flow = key ∧ l.Keeps ranges overrides now flow old np ∧
    (artifactOf old.algorithm = a ∨ artifactOf np.algorithm = a)}

variable {l : Limiter} {ranges : List PolicyRange} {overrides : Table UInt32 EffectivePolicy}
variable {now : ℕ} {flow : FlowKey}

variable (ranges overrides now) in
/-- A LIMITED flow is taken down, or it stays limited and is installed anew where its
policy changed. -/
theorem planOne_keeps (hok : l.Ok) (hlimited : l.Limited flow) :
    ∃ old, l.enforced flow = some old ∧
      ((planOne ranges overrides now l flow).removes = [.remove flow.1 flow.2] ∧
          (planOne ranges overrides now l flow).installs = [] ∧
          (∀ old np, ¬ l.Keeps ranges overrides now flow old np) ∨
        ∃ np, l.Keeps ranges overrides now flow old np ∧
          (planOne ranges overrides now l flow).removes = [] ∧
          (planOne ranges overrides now l flow).installs =
            if reinstalls np old then [.installOf flow np] else []) := by
  obtain ⟨s, hs, hphase⟩ := hlimited
  obtain ⟨old, -, enforces, henforced⟩ := (hok flow).enforced_limited hs hphase
  refine ⟨old, henforced, ?_⟩
  rw [planOne_eq hs enforces.applied]
  cases hkept : (lookupDir ranges overrides flow).filter
      fun np => decide (now < u64SaturatingAdd s.limitedSince np.limitDurationSecs) with
  | none =>
    refine Or.inl ⟨rfl, rfl, ?_⟩
    intro old' np keeps
    obtain ⟨s', hs', -, -, hnow⟩ := keeps.limited
    obtain rfl := Option.some.inj (hs.symm.trans hs')
    rw [keeps.policy, Option.filter_some, if_pos (decide_eq_true hnow)] at hkept
    cases hkept
  | some np =>
    obtain ⟨hpolicy, hnow⟩ := Option.filter_eq_some_iff.mp hkept
    exact Or.inr ⟨np, ⟨⟨s, hs, hphase, enforces.applied, of_decide_eq_true hnow⟩, hpolicy⟩, rfl,
      rfl⟩

theorem Keeps.limited' {old np : DirPolicy} (h : l.Keeps ranges overrides now flow old np) :
    l.Limited flow := by
  obtain ⟨s, hs, hphase, -, -⟩ := h.limited
  exact ⟨s, hs, hphase⟩

theorem Keeps.enforced {old np : DirPolicy} (h : l.Keeps ranges overrides now flow old np) :
    l.enforced flow = some old := by
  obtain ⟨s, hs, hphase, happlied, -⟩ := h.limited
  simp [Limiter.enforced, FlowView.enforced, view, hs, hphase, happlied]

/-- The removes of a plan, and the installs it has for some of the flows. -/
def removesOf (ranges : List PolicyRange) (overrides : Table UInt32 EffectivePolicy) (now : ℕ)
    (l : Limiter) (flows : List FlowKey) : List LimitAction :=
  flows.flatMap fun flow => (planOne ranges overrides now l flow).removes

def installsOf (ranges : List PolicyRange) (overrides : Table UInt32 EffectivePolicy) (now : ℕ)
    (l : Limiter) (flows : List FlowKey) : List LimitAction :=
  flows.flatMap fun flow => (planOne ranges overrides now l flow).installs

section Plan

variable {limited xs : List FlowKey} (hok : l.Ok) (visits : Visits limited l.Limited)

include hok visits in
theorem isRemove_of_mem_removesOf {action : LimitAction}
    (h : action ∈ removesOf ranges overrides now l limited) : action.isRemove = true := by
  obtain ⟨flow, hflow, hmem⟩ := List.mem_flatMap.mp h
  obtain ⟨old, -, ⟨hremoves, -⟩ | ⟨np, -, hremoves, -⟩⟩ :=
    planOne_keeps ranges overrides now hok
      ((visits.mem_iff flow).mp hflow)
  · rw [hremoves, List.mem_singleton] at hmem
    exact hmem ▸ rfl
  · rw [hremoves] at hmem
    cases hmem

include hok visits in
/-- An install of a plan belongs to a flow that stays limited. -/
theorem keeps_of_mem_installsOf (sub : ∀ flow ∈ xs, flow ∈ limited) {action : LimitAction}
    (h : action ∈ installsOf ranges overrides now l xs) :
    ∃ flow old np, l.Keeps ranges overrides now flow old np ∧ action = .installOf flow np := by
  obtain ⟨flow, hflow, hmem⟩ := List.mem_flatMap.mp h
  obtain ⟨old, -, ⟨-, hinstalls, -⟩ | ⟨np, keeps, -, hinstalls⟩⟩ :=
    planOne_keeps ranges overrides now hok
      ((visits.mem_iff flow).mp (sub flow hflow))
  · rw [hinstalls] at hmem
    cases hmem
  · rw [hinstalls] at hmem
    split at hmem
    · exact ⟨flow, old, np, keeps, List.mem_singleton.mp hmem⟩
    · cases hmem

include hok visits in
theorem filter_isRemove (sub : ∀ flow ∈ xs, flow ∈ limited) :
    (removesOf ranges overrides now l limited ++ installsOf ranges overrides now l xs).filter
      LimitAction.isRemove = removesOf ranges overrides now l limited := by
  have removes : (removesOf ranges overrides now l limited).filter LimitAction.isRemove =
      removesOf ranges overrides now l limited :=
    List.filter_eq_self.mpr fun action hmem => isRemove_of_mem_removesOf hok visits hmem
  have installs : (installsOf ranges overrides now l xs).filter LimitAction.isRemove = [] := by
    apply List.filter_eq_nil_iff.mpr
    intro action hmem
    obtain ⟨flow, old, np, -, rfl⟩ := keeps_of_mem_installsOf hok visits sub hmem
    exact Bool.false_ne_true
  rw [List.filter_append, removes, installs, List.append_nil]

include hok visits in
theorem filter_not_isRemove (sub : ∀ flow ∈ xs, flow ∈ limited) :
    (removesOf ranges overrides now l limited ++ installsOf ranges overrides now l xs).filter
      (!LimitAction.isRemove ·) = installsOf ranges overrides now l xs := by
  have removes :
      (removesOf ranges overrides now l limited).filter (!LimitAction.isRemove ·) = [] := by
    apply List.filter_eq_nil_iff.mpr
    intro action hmem
    simp [isRemove_of_mem_removesOf hok visits hmem]
  have installs : (installsOf ranges overrides now l xs).filter (!LimitAction.isRemove ·) =
      installsOf ranges overrides now l xs := by
    apply List.filter_eq_self.mpr
    intro action hmem
    obtain ⟨flow, old, np, -, rfl⟩ := keeps_of_mem_installsOf hok visits sub hmem
    rfl
  rw [List.filter_append, removes, installs, List.nil_append]

variable {d : Dataplane} (matching : d.Matches l)

/-- The maps once the removes are carried out and the installs of some of the flows. -/
def midway (ranges : List PolicyRange) (overrides : Table UInt32 EffectivePolicy) (now : ℕ)
    (l : Limiter) (limited xs : List FlowKey) (σ : Shape) : Shape :=
  (removesOf ranges overrides now l limited ++ installsOf ranges overrides now l xs).foldl
    Shape.carryOut σ

variable (ranges overrides now) in
include visits in
/-- The actions a flow has among these. -/
theorem filter_midway (nodup : xs.Nodup) (flow : FlowKey) :
    (removesOf ranges overrides now l limited ++ installsOf ranges overrides now l xs).filter
        (·.flow = flow) =
      (if flow ∈ limited then (planOne ranges overrides now l flow).removes else []) ++
        if flow ∈ xs then (planOne ranges overrides now l flow).installs else [] := by
  rw [List.filter_append, removesOf, installsOf,
    filter_flatMap_of_nodup visits.nodup (fun flow => (planOne_own flow).1),
    filter_flatMap_of_nodup nodup (fun flow => (planOne_own flow).2.1)]
  congr

include hok visits matching in
/-- A flow that stays limited holds what its policy before or after needs. -/
theorem midway_keeps (nodup : xs.Nodup) {old np : DirPolicy}
    (keeps : l.Keeps ranges overrides now flow old np) :
    (midway ranges overrides now l limited xs d.shape).flow (limitKey flow) =
      .settled (some (if flow ∈ xs ∧ reinstalls np old then np else old).installed) := by
  have hlimited := (visits.mem_iff flow).mpr keeps.limited'
  have hfilter := filter_midway ranges overrides now visits nodup flow
  obtain ⟨old', hold', ⟨-, -, hnone⟩ | ⟨np', keeps', hremoves, hinstalls⟩⟩ :=
    planOne_keeps ranges overrides now hok keeps.limited'
  · exact absurd keeps (hnone old np)
  · obtain rfl : old' = old := Option.some.inj (hold'.symm.trans keeps.enforced)
    obtain rfl : np' = np := Option.some.inj (keeps'.policy.symm.trans keeps.policy)
    rw [if_pos hlimited, hremoves, hinstalls, List.nil_append] at hfilter
    by_cases hanew : flow ∈ xs ∧ reinstalls np' old'
    · rw [if_pos hanew.1, if_pos hanew.2] at hfilter
      rw [if_pos hanew]
      exact foldl_carryOut_own hfilter _
    · have nothing : (removesOf ranges overrides now l limited ++
          installsOf ranges overrides now l xs).filter (·.flow = flow) = [] := by
        rw [hfilter]
        by_cases hxs : flow ∈ xs
        · rw [if_pos hxs, if_neg fun h => hanew ⟨hxs, h⟩]
        · rw [if_neg hxs]
      rw [if_neg hanew]
      refine (foldl_carryOut_other nothing _).trans ?_
      rw [matching.flow, hold']
      rfl

include hok visits matching in
/-- A flow that does not stay limited holds nothing. -/
theorem midway_bare (nodup : xs.Nodup) (sub : ∀ flow ∈ xs, flow ∈ limited)
    (h : ∀ old np, ¬ l.Keeps ranges overrides now flow old np) :
    (midway ranges overrides now l limited xs d.shape).flow (limitKey flow) = .settled none := by
  have hfilter := filter_midway ranges overrides now visits nodup flow
  by_cases hlimited : flow ∈ limited
  · obtain ⟨old, hold, ⟨hremoves, hinstalls, -⟩ | ⟨np, keeps, -⟩⟩ :=
      planOne_keeps ranges overrides now hok ((visits.mem_iff flow).mp hlimited)
    · rw [if_pos hlimited, hremoves, hinstalls, ite_self, List.append_nil] at hfilter
      exact foldl_carryOut_own hfilter _
    · exact absurd keeps (h old np)
  · have hxs : flow ∉ xs := fun hmem => hlimited (sub flow hmem)
    rw [if_neg hlimited, if_neg hxs, List.append_nil] at hfilter
    refine (foldl_carryOut_other hfilter _).trans ?_
    have unlimited : l.enforced flow = none := by
      by_contra hne
      exact hlimited ((visits.mem_iff flow).mpr
        ((hok.limited_iff flow).mpr (Option.isSome_iff_ne_none.mpr hne)))
    rw [matching.flow, unlimited]
    rfl

include hok visits matching in
/-- What is held on the way are artifacts of flows that stay limited. -/
theorem holding_midway (nodup : xs.Nodup) (sub : ∀ flow ∈ xs, flow ∈ limited) (a : Artifact) :
    (midway ranges overrides now l limited xs d.shape).holding a ⊆
      l.usersOf ranges overrides now a := by
  intro k hk
  have hk : ((midway ranges overrides now l limited xs d.shape).flow
      (limitKey (k.ipv4, k.direction))).artifacts a = true := hk
  by_cases h : ∃ old np, l.Keeps ranges overrides now (k.ipv4, k.direction) old np
  · obtain ⟨old, np, keeps⟩ := h
    refine ⟨_, old, np, rfl, keeps, ?_⟩
    rw [midway_keeps hok visits matching nodup keeps] at hk
    have ha : artifactOf (if (k.ipv4, k.direction) ∈ xs ∧ reinstalls np old then np
        else old).algorithm = a := by simpa [FlowShape.settled, DirPolicy.installed] using hk
    split at ha
    · exact Or.inr ha
    · exact Or.inl ha
  · have bare := midway_bare hok visits matching nodup sub
      (fun old np keeps => h ⟨old, np, keeps⟩)
    rw [bare] at hk
    exact Bool.noConfusion hk

include hok visits matching in
/-- The installs of a plan need room for the flows that stay limited, no more. -/
theorem needs_subset_usersOf {actions : List LimitAction}
    (hactions : actions = removesOf ranges overrides now l limited ++
      installsOf ranges overrides now l limited) (a : Artifact) :
    needs (midway ranges overrides now l limited [] d.shape) actions a ⊆
      l.usersOf ranges overrides now a := by
  intro k h
  rcases h with hk | ⟨action, hmem, hkey, p, hp, ha⟩
  · exact holding_midway hok visits matching List.nodup_nil nofun a hk
  · rw [hactions] at hmem
    rcases List.mem_append.mp hmem with hmem | hmem
    · have hremove := isRemove_of_mem_removesOf hok visits hmem
      cases action with
      | remove ipv4 direction => cases hp
      | install ipv4 direction rateBps burstBytes algorithm windowNs => cases hremove
    · obtain ⟨flow, old, np, keeps, rfl⟩ := keeps_of_mem_installsOf hok visits (fun _ => id) hmem
      obtain rfl := Option.some.inj hp
      exact ⟨flow, old, np, hkey, keeps, Or.inr ha⟩

include hok visits matching in
/-- Every action of a plan that installs does so over an armed policy. -/
theorem armed_of_mem_plan {actions : List LimitAction}
    (hactions : actions = removesOf ranges overrides now l limited ++
      installsOf ranges overrides now l limited) :
    ∀ action ∈ actions, action.policy ≠ none →
      action.key ∈ (midway ranges overrides now l limited [] d.shape).armed := by
  intro action hmem hne
  rw [hactions] at hmem
  rcases List.mem_append.mp hmem with hmem | hmem
  · have hremove := isRemove_of_mem_removesOf hok visits hmem
    cases action with
    | remove ipv4 direction => exact absurd rfl hne
    | install ipv4 direction rateBps burstBytes algorithm windowNs => cases hremove
  · obtain ⟨flow, old, np, keeps, rfl⟩ := keeps_of_mem_installsOf hok visits (fun _ => id) hmem
    have := midway_keeps hok visits matching List.nodup_nil keeps
    change ((midway ranges overrides now l limited [] d.shape).flow (limitKey flow)).policy.isSome
    rw [this]
    rfl

include hok visits matching in
/-- Once the flows that need an artifact afterwards have it, all its users hold it. -/
theorem usersOf_subset_holding (nodup : xs.Nodup) {a : Artifact}
    (mem : ∀ flow old np, l.Keeps ranges overrides now flow old np →
      artifactOf np.algorithm = a → flow ∈ xs)
    (only : ∀ flow old np, flow ∈ xs → l.Keeps ranges overrides now flow old np →
      artifactOf np.algorithm = a) :
    l.usersOf ranges overrides now a ⊆
      (midway ranges overrides now l limited xs d.shape).holding a := by
  intro k given
  obtain ⟨flow, old, np, rfl, keeps, hused⟩ := given
  change ((midway ranges overrides now l limited xs d.shape).flow (limitKey flow)).artifacts a =
    true
  rw [midway_keeps hok visits matching nodup keeps]
  by_cases hxs : flow ∈ xs
  · have hnew := only flow old np hxs keeps
    by_cases hanew : reinstalls np old
    · simp [FlowShape.settled, DirPolicy.installed, hxs, hanew, hnew]
    · have same : old.algorithm = np.algorithm := by
        simp only [reinstalls, Bool.or_eq_true, decide_eq_true_eq, not_or, not_not] at hanew
        exact hanew.1.2.symm
      simp [FlowShape.settled, DirPolicy.installed, hanew, same, hnew]
  · have hold : artifactOf old.algorithm = a := by
      rcases hused with h | h
      · exact h
      · exact absurd (mem flow old np keeps h) hxs
    simp [FlowShape.settled, DirPolicy.installed, hxs, hold]

variable {actions : List LimitAction}

include hok visits matching in
/-- Where all users of an artifact fit at once, so do the actions, in whatever order. -/
theorem plan_succeeds {cap : Capacity} (holds : cap.HoldsFlows d.shape)
    (hactions : actions = removesOf ranges overrides now l limited ++
      installsOf ranges overrides now l limited)
    (room : ∀ a, (l.usersOf ranges overrides now a).ncard ≤ cap.artifacts a) :
    Tx.wpUnder Shape.exec cap.Decides (runLimitActions actions) (fun r _ _ => r.isOk) {}
      d.shape := by
  have succeeds : Tx.wpUnder Shape.exec cap.Decides (removePass actions) (fun r _ _ => r.isOk) {}
      d.shape := removePass_succeeds actions {} d.shape
  have ends := (removePass_takesBack actions {} d.shape matching.settled (.empty _) rfl).under
    cap.Decides
  have keeps := holdsFlows_under Capacity.Decides.space (removePass actions) {} holds
  rw [runLimitActions, Tx.wpUnder_bind]
  refine Tx.wpUnder_mono (Tx.wpUnder_and succeeds (Tx.wpUnder_and ends keeps)) ?_
  intro r journal σ₁ h
  obtain ⟨ok, ⟨-, done⟩, holds₁⟩ := h
  cases r with
  | error e => exact Bool.noConfusion ok
  | ok _ =>
    have hσ₁ : σ₁ = midway ranges overrides now l limited [] d.shape := by
      rw [done rfl, midway, hactions, filter_isRemove hok visits fun _ => id]
      simp [installsOf]
    have settled : σ₁.Settled := done rfl ▸ matching.settled.foldl_carryOut _
    subst hσ₁
    refine installPass_succeeds actions journal _ settled holds₁ ?_ ?_
    · exact armed_of_mem_plan hok visits matching hactions
    · intro a
      exact (Set.ncard_le_ncard (needs_subset_usersOf hok visits matching hactions a)).trans
        (room a)

include hok visits matching in
/-- Actions that first give an artifact to all flows that need it afterwards only
succeed where all its users fit at once. -/
theorem usersOf_fit_of_plan {cap : Capacity} (holds : cap.HoldsFlows d.shape)
    {ys : List FlowKey} (hlimited : limited = xs ++ ys)
    (hactions : actions = removesOf ranges overrides now l limited ++
      installsOf ranges overrides now l limited) {a : Artifact}
    (mem : ∀ flow old np, l.Keeps ranges overrides now flow old np →
      artifactOf np.algorithm = a → flow ∈ xs)
    (only : ∀ flow old np, flow ∈ xs → l.Keeps ranges overrides now flow old np →
      artifactOf np.algorithm = a) :
    Tx.wpUnder Shape.exec cap.Decides (runLimitActions actions)
      (fun r _ _ => r.isOk → (l.usersOf ranges overrides now a).ncard ≤ cap.artifacts a) {}
      d.shape := by
  have sub : ∀ flow ∈ xs, flow ∈ limited := fun flow h => hlimited ▸ List.mem_append_left _ h
  have nodup : xs.Nodup := (List.nodup_append.mp (hlimited ▸ visits.nodup)).1
  have parts : actions = (removesOf ranges overrides now l limited ++
      installsOf ranges overrides now l xs) ++ installsOf ranges overrides now l ys := by
    rw [hactions, List.append_assoc]
    congr 1
    rw [hlimited]
    exact List.flatMap_append
  have ends := (removePass_takesBack actions {} d.shape matching.settled (.empty _) rfl).under
    cap.Decides
  have keeps := holdsFlows_under Capacity.Decides.space (removePass actions) {} holds
  rw [runLimitActions, Tx.wpUnder_bind]
  refine Tx.wpUnder_mono (Tx.wpUnder_and ends keeps) ?_
  intro r journal σ₁ given
  obtain ⟨⟨back, done⟩, holds₁⟩ := given
  cases r with
  | error e => exact Tx.not_ok
  | ok _ =>
    have settled : σ₁.Settled := done rfl ▸ matching.settled.foldl_carryOut _
    rw [parts]
    refine wpUnder_installPass_append _ _ journal σ₁ ?_
    have ends := (installPass_takesBack (removesOf ranges overrides now l limited ++
      installsOf ranges overrides now l xs) journal σ₁ settled back).under cap.Decides
    have keeps := holdsFlows_under Capacity.Decides.space (installPass (removesOf ranges overrides
      now l limited ++ installsOf ranges overrides now l xs)) journal holds₁
    refine Tx.wpUnder_mono (Tx.wpUnder_and ends keeps) ?_
    intro r journal₂ σ₂ given
    obtain ⟨⟨-, done₂⟩, holds₂⟩ := given
    cases r with
    | error e => exact Tx.not_ok
    | ok _ =>
      have hσ₂ : σ₂ = midway ranges overrides now l limited xs d.shape := by
        rw [done₂ rfl, done rfl, hactions, filter_isRemove hok visits (fun _ => id),
          filter_not_isRemove hok visits sub, midway, List.foldl_append]
      have fits := holds₂.holding a
      rw [hσ₂] at fits
      have all := usersOf_subset_holding hok visits matching nodup mem only
      exact wpUnder_of_forall _ fun _ _ _ => (Set.ncard_le_ncard all).trans fits

end Plan

end Limiter

/-! ### Every order -/

instance : Finite FlowKey := .of_injective limitKey fun _ _ => limitKey_injective

/-- Any split of the LIMITED flows is an order a plan may visit them in. -/
theorem exists_visits (p : FlowKey → Prop) (first : FlowKey → Prop) :
    ∃ xs ys, Visits (xs ++ ys) p ∧ ∀ flow, flow ∈ xs ↔ p flow ∧ first flow := by
  classical
  let all : Finset FlowKey := (Set.toFinite {flow | p flow}).toFinset
  have hall : ∀ flow, flow ∈ all ↔ p flow := fun flow => by simp [all]
  refine ⟨(all.filter first).toList, (all.filter (¬first ·)).toList, ⟨?_, ?_⟩, ?_⟩
  · refine List.nodup_append.mpr ⟨Finset.nodup_toList _, Finset.nodup_toList _, ?_⟩
    intro a ha b hb same
    subst same
    rw [Finset.mem_toList, Finset.mem_filter] at ha hb
    exact hb.2 ha.2
  · intro flow
    rw [List.mem_append, Finset.mem_toList, Finset.mem_toList, Finset.mem_filter,
      Finset.mem_filter, hall]
    by_cases h : first flow <;> simp [h]
  · intro flow
    rw [Finset.mem_toList, Finset.mem_filter, hall]

theorem Capacity.decides_total (cap : Capacity) (op : MapOp) (σ : Shape) :
    cap.Decides op none σ ∨ ∃ e, cap.Decides op (some e) σ := by
  by_cases fits : cap.Fits op σ
  · exact Or.inl (iff_of_true rfl fits)
  · exact Or.inr ⟨⟨["map full"]⟩, iff_of_false (Option.some_ne_none _) fits⟩

/-- A reload of a limiter whose maps match it succeeds in every order of its flows
exactly when each artifact map has room for all flows that use it before or after, of
those that stay limited. -/
theorem reload_fits_in_every_order_iff (cap : Capacity) {reaches : RollingWindow → ℕ → Bool}
    {l : Limiter} {pending : List LimitAction}
    (reached : Limiter.Reachable reaches ValidatedConfig.Accepted false l pending)
    (d : Dataplane) (matching : d.Matches l) (holds : cap.HoldsFlows d.shape)
    (cfg : ValidatedConfig) (ranges : List PolicyRange)
    (overrides : Table UInt32 EffectivePolicy) (index : buildIndex cfg = .ok (ranges, overrides))
    (now : ℕ) :
    (∀ limited plan, Visits limited l.Limited → l.planReload cfg now limited = .ok plan →
      ∀ evs r journal d', Runs MapOp.exec (runLimitActions plan.actions {}) d evs (r, journal) d' →
        Obeys (fun op error d => cap.Decides op error d.shape) d evs → r.isOk = true) ↔
    ∀ a, (l.usersOf ranges overrides now a).ncard ≤ cap.artifacts a := by
  have hok := reached.ok.1
  -- a plan has its removes and installs in the order the flows are visited in
  have planned : ∀ limited plan, l.planReload cfg now limited = .ok plan →
      plan.actions = Limiter.removesOf ranges overrides now l limited ++
        Limiter.installsOf ranges overrides now l limited := by
    intro limited plan hplan
    obtain ⟨hindex, hactions, -, -⟩ := Limiter.planReload_eq hplan
    obtain ⟨hranges, hoverrides⟩ := Prod.mk.inj (Except.ok.inj (index.symm.trans hindex))
    rw [hactions, ← hranges, ← hoverrides]
    rfl
  constructor
  · intro every a
    obtain ⟨xs, ys, visits, hxs⟩ := exists_visits l.Limited fun flow =>
      ∃ old np, l.Keeps ranges overrides now flow old np ∧ artifactOf np.algorithm = a
    obtain ⟨plan, hplan⟩ : ∃ plan, l.planReload cfg now (xs ++ ys) = .ok plan := by
      unfold Limiter.planReload
      rw [index]
      exact ⟨_, rfl⟩
    obtain ⟨evs, ⟨r, journal⟩, d', run, obeys⟩ := exists_obeying
      (fun op error (d : Dataplane) => cap.Decides op error d.shape)
      (fun op d => cap.decides_total op d.shape) (runLimitActions plan.actions {}) d
    have fits := Limiter.usersOf_fit_of_plan hok visits matching holds rfl
      (planned _ _ hplan)
      (fun flow old np keeps ha => (hxs flow).mpr ⟨keeps.limited', old, np, keeps, ha⟩)
      (fun flow old np hmem keeps => by
        obtain ⟨-, old', np', keeps', ha⟩ := (hxs flow).mp hmem
        obtain rfl : np' = np := Option.some.inj (keeps'.policy.symm.trans keeps.policy)
        exact ha)
    have obeys' : Obeys cap.Decides d.shape (evs.map (Event.map Dataplane.shape)) := obeys.map
    exact wpUnder_sound fits (Dataplane.runs_shape run) obeys'
      (every _ plan visits hplan evs r journal d' run obeys)
  · intro room limited plan visits hplan evs r journal d' run obeys
    have succeeds := Limiter.plan_succeeds hok visits matching holds (planned _ _ hplan) room
    have obeys' : Obeys cap.Decides d.shape (evs.map (Event.map Dataplane.shape)) := obeys.map
    have ends := wpUnder_sound succeeds (Dataplane.runs_shape run) obeys'
    exact ends

/-! ### A swap of algorithms -/

/-- A file with two addresses that switch to each other's algorithm, and room for one
sliding window log. -/
def swapFile (first second : PolicyEntry) : Config where
  network := ⟨"br0"⟩
  collector := { swlMapMaxEntries := 1 }
  experimental := ⟨true⟩
  ipRanges := [⟨"a", "0.0.0.1-0.0.0.1", some first, []⟩, ⟨"b", "0.0.0.2-0.0.0.2", some second, []⟩]

/-- What such a file is parsed to. -/
def swapConfig (first second : PolicyFields) : ValidatedConfig :=
  { Limiter.oneAddress {} with
    swlMapMaxEntries := 1
    ranges := [⟨⟨"a", 1, 1⟩, first, []⟩, ⟨⟨"b", 2, 2⟩, second, []⟩] }

def logLimit : PolicyFields :=
  { Limiter.receiveLimit with algorithm := some algoSlidingWindowLog, limitWindowSecs := some 1 }

def logLimitEntry : PolicyEntry :=
  { Limiter.receiveLimitEntry with
    algorithm := some "sliding_window_log"
    limitWindow := some "1s" }

def logOnly : DirPolicy :=
  { Limiter.receiveOnly with
    burstBytes := 0
    algorithm := algoSlidingWindowLog
    limitWindowSecs := 1 }

theorem accepted_swapConfig :
    (swapConfig Limiter.receiveLimit logLimit).Accepted ∧
      (swapConfig logLimit Limiter.receiveLimit).Accepted := by
  have before : (swapFile Limiter.receiveLimitEntry logLimitEntry).parse (fun _ => .error "") =
      .ok (swapConfig Limiter.receiveLimit logLimit) := by rfl
  have after : (swapFile logLimitEntry Limiter.receiveLimitEntry).parse (fun _ => .error "") =
      .ok (swapConfig logLimit Limiter.receiveLimit) := by rfl
  exact ⟨ValidatedConfig.accepted_of_parse before, ValidatedConfig.accepted_of_parse after⟩

/-- The index of such a configuration. -/
def swapRanges (first second : DirPolicy) : List PolicyRange :=
  [⟨1, 1, ⟨some first, none⟩⟩, ⟨2, 2, ⟨some second, none⟩⟩]

theorem lookupDir_swapRanges (first second : DirPolicy) (flow : FlowKey) :
    lookupDir (swapRanges first second) Table.empty flow =
      if flow = (1, dirRx) then some first
      else if flow = (2, dirRx) then some second else none := by
  obtain ⟨ip, dir⟩ := flow
  by_cases hfirst : ip = 1
  · subst hfirst
    by_cases hdir : dir = dirRx
    · subst hdir
      rfl
    · simp [lookupDir, lookup, swapRanges, EffectivePolicy.dir, EffectivePolicy.isEmpty, hdir]
  · by_cases hsecond : ip = 2
    · subst hsecond
      by_cases hdir : dir = dirRx
      · subst hdir
        rfl
      · simp [lookupDir, lookup, swapRanges, EffectivePolicy.dir, EffectivePolicy.isEmpty, hdir]
    · have outside : ∀ k : UInt32, ip ≠ k → ¬(k ≤ ip ∧ ip ≤ k) :=
        fun k hne h => hne (UInt32.le_antisymm h.2 h.1)
      simp [lookupDir, lookup, swapRanges, outside 1 hfirst, outside 2 hsecond, hfirst, hsecond]

/-- Both addresses after a second over the threshold, the second one limited by the log. -/
def swapRun : Limiter × List LimitAction :=
  let start := (Limiter.new 1).commitReload
    ⟨[], swapRanges Limiter.receiveOnly logOnly, Table.empty, [], []⟩
  let counted (bytes : ℕ) : Table UInt32 IpTotals :=
    (Table.empty.insert 1 { rxBytes := bytes }).insert 2 { rxBytes := bytes }
  (start.tick RollingWindow.reachesExactly 0 (counted 0) [1, 2]).1.tick
    RollingWindow.reachesExactly 1 (counted 125000) [1, 2]

theorem swapRun_reachable :
    Limiter.Reachable RollingWindow.reachesExactly ValidatedConfig.Accepted false swapRun.1
        swapRun.2 ∧
      swapRun.1.KnowsAmong [(1, dirRx), (2, dirRx)] := by
  have planned : (Limiter.new 1).planReload (swapConfig Limiter.receiveLimit logLimit) 0 [] =
      .ok ⟨[], swapRanges Limiter.receiveOnly logOnly, Table.empty, [], []⟩ := rfl
  have started : Limiter.Reachable RollingWindow.reachesExactly ValidatedConfig.Accepted false _ _ :=
    .reload (.new 1) accepted_swapConfig.1 (Limiter.visits_new 1) planned
  have known : ((Limiter.new 1).commitReload
      ⟨[], swapRanges Limiter.receiveOnly logOnly, Table.empty, [], []⟩).KnowsAmong
        [(1, dirRx), (2, dirRx)] := by
    intro flow hne
    refine ⟨?_, rfl, rfl⟩
    obtain ⟨hfirst, hsecond⟩ : flow ≠ (1, dirRx) ∧ flow ≠ (2, dirRx) := by simpa using hne
    refine (Limiter.commitReload_dirPolicy _ _ flow).trans ?_
    rw [lookupDir_swapRanges, if_neg hfirst, if_neg hsecond]
  have distinct : ([1, 2] : List UInt32).Nodup := by decide
  have counted : ∀ (bytes : ℕ) (ip : UInt32),
      (((Table.empty.insert 1 { rxBytes := bytes }).insert 2 { rxBytes := bytes } :
        Table UInt32 IpTotals) ip).isSome ↔ ip ∈ ([1, 2] : List UInt32) := by
    intro bytes ip
    by_cases hfirst : ip = 1 <;> by_cases hsecond : ip = 2 <;> simp [*]
  have covers : ∀ f ∈ [((1 : UInt32), dirRx), (2, dirRx)], f.1 ∈ ([1, 2] : List UInt32) := by simp
  have known' : (Limiter.tick RollingWindow.reachesExactly _ 0
      ((Table.empty.insert 1 { rxBytes := 0 }).insert 2 { rxBytes := 0 }) [1, 2]).1.KnowsAmong _ :=
    known.tick 0 _ distinct
  have first := started.tick 0 _ (known.visits distinct covers (counted 0))
  exact ⟨first.tick 1 _ (known'.visits distinct covers (counted 125000)),
    known'.tick 1 _ distinct⟩

/-- The maps that match it. -/
def swapMaps : Dataplane :=
  { Dataplane.empty with
    policies := (Table.empty.insert ⟨1, dirRx⟩ Limiter.receiveOnly.installed).insert ⟨2, dirRx⟩
      logOnly.installed
    limitState := Table.empty.insert ⟨1, dirRx⟩ {}
    swlLog := Table.empty.insert ⟨2, dirRx⟩ {} }

theorem swapRun_enforced (flow : FlowKey) :
    swapRun.1.enforced flow =
      if flow = (1, dirRx) then some Limiter.receiveOnly
      else if flow = (2, dirRx) then some logOnly else none := by
  by_cases hfirst : flow = (1, dirRx)
  · subst hfirst
    rfl
  · by_cases hsecond : flow = (2, dirRx)
    · subst hsecond
      rfl
    · have unknown := (swapRun_reachable.2 flow (by simp [hfirst, hsecond])).2.2
      rw [if_neg hfirst, if_neg hsecond, Limiter.enforced, Limiter.view, FlowView.enforced, unknown]
      rfl

theorem swapMaps_settled : swapMaps.shape.Settled := by
  intro key
  refine FlowShape.ext rfl (funext fun a => ?_)
  by_cases hfirst : key = ⟨1, dirRx⟩
  · subst hfirst
    cases a <;> decide
  · by_cases hsecond : key = ⟨2, dirRx⟩
    · subst hsecond
      cases a <;> decide
    · cases a <;>
        simp [swapMaps, Dataplane.shape, Dataplane.hasArtifact, FlowShape.settled, hfirst, hsecond]

theorem swapMaps_matches : swapMaps.Matches swapRun.1 := by
  obtain ⟨hard, noOrphans⟩ := swapMaps.shape_settled_iff.mp swapMaps_settled
  refine ⟨hard, noOrphans, ?_⟩
  intro flow
  rw [swapRun_enforced]
  by_cases hfirst : flow = (1, dirRx)
  · subst hfirst
    decide
  · by_cases hsecond : flow = (2, dirRx)
    · subst hsecond
      decide
    · have first : limitKey flow ≠ ⟨1, dirRx⟩ := fun h =>
        hfirst (limitKey_injective (show limitKey flow = limitKey (1, dirRx) from h))
      have second : limitKey flow ≠ ⟨2, dirRx⟩ := fun h =>
        hsecond (limitKey_injective (show limitKey flow = limitKey (2, dirRx) from h))
      simp [swapMaps, hfirst, hsecond, first, second]

/-- The maps as that file sizes them. -/
def swapCapacity : Capacity where
  policies := 8192
  artifacts
    | .state => 8192
    | .ring => 1
  prefixes := 8192

/-- Two flows and one log fit. -/
theorem swapCapacity_holds {σ : Shape} (ring : LimitKey)
    (armed : ∀ k, (σ.flow k).policy.isSome → k = ⟨1, dirRx⟩ ∨ k = ⟨2, dirRx⟩)
    (state : ∀ k, (σ.flow k).artifacts .state = true → k = ⟨1, dirRx⟩ ∨ k = ⟨2, dirRx⟩)
    (log : ∀ k, (σ.flow k).artifacts .ring = true → k = ring) : swapCapacity.HoldsFlows σ := by
  have two : ∀ s : Set LimitKey, (∀ k ∈ s, k = ⟨1, dirRx⟩ ∨ k = ⟨2, dirRx⟩) → s.ncard ≤ 8192 := by
    intro s hs
    have pair : s.ncard ≤ ({⟨1, dirRx⟩, ⟨2, dirRx⟩} : Set LimitKey).ncard :=
      Set.ncard_le_ncard hs
    exact pair.trans ((Set.ncard_insert_le _ _).trans (by simp))
  refine ⟨two _ armed, ?_⟩
  intro a
  cases a with
  | state => exact two _ state
  | ring => exact (Set.ncard_le_ncard (show σ.holding .ring ⊆ {ring} from log)).trans (by
      rw [Set.ncard_singleton]
      exact le_rfl)

theorem swapMaps_holds : swapCapacity.HoldsFlows swapMaps.shape := by
  have known : ∀ key, key ≠ ⟨1, dirRx⟩ → key ≠ ⟨2, dirRx⟩ →
      swapMaps.policies key = none ∧ swapMaps.limitState key = none := by
    intro key hfirst hsecond
    simp [swapMaps, hfirst, hsecond]
  refine swapCapacity_holds ⟨2, dirRx⟩ (?_) (?_) ?_
  · intro k hk
    by_contra hne
    obtain ⟨hfirst, hsecond⟩ := not_or.mp hne
    have hk : (swapMaps.policies k).isSome := hk
    simp [(known k hfirst hsecond).1] at hk
  · intro k hk
    by_contra hne
    obtain ⟨hfirst, hsecond⟩ := not_or.mp hne
    have hk : (swapMaps.limitState k).isSome := hk
    simp [(known k hfirst hsecond).2] at hk
  · intro k hk
    by_contra hne
    have hk : (swapMaps.swlLog k).isSome := hk
    simp [swapMaps, hne] at hk

/-- The flows in the order in which the one that needs a log comes first. -/
def swapPlan : ReloadPlan where
  actions := [.installOf (1, dirRx) logOnly, .installOf (2, dirRx) Limiter.receiveOnly]
  newRanges := swapRanges logOnly Limiter.receiveOnly
  newOverrides := Table.empty
  flowResets := []
  flowUpdates := [((1, dirRx), 2, logOnly), ((2, dirRx), 2, Limiter.receiveOnly)]

theorem swapPlan_planned :
    Visits [(1, dirRx), (2, dirRx)] swapRun.1.Limited ∧
      swapRun.1.planReload (swapConfig logLimit Limiter.receiveLimit) 1 [(1, dirRx), (2, dirRx)] =
        .ok swapPlan := by
  have first : swapRun.1.states (1, dirRx) =
      some ⟨.limited, 1, 2, some Limiter.receiveOnly⟩ := by rfl
  have second : swapRun.1.states (2, dirRx) = some ⟨.limited, 1, 2, some logOnly⟩ := by
    rfl
  refine ⟨⟨by decide, fun flow => ⟨?_, ?_⟩⟩, ?_⟩
  · intro hmem
    rcases List.mem_cons.mp hmem with rfl | hmem
    · exact ⟨_, first, rfl⟩
    · obtain rfl := List.mem_singleton.mp hmem
      exact ⟨_, second, rfl⟩
  · intro hlimited
    by_contra hne
    obtain ⟨s, hs, -⟩ := hlimited
    rw [(swapRun_reachable.2 flow hne).2.2] at hs
    cases hs
  · have index : buildIndex (swapConfig logLimit Limiter.receiveLimit) =
        .ok (swapRanges logOnly Limiter.receiveOnly, Table.empty) := rfl
    unfold Limiter.planReload
    rw [index]
    simp only [List.foldl_cons, List.foldl_nil, Limiter.planFlow, first, second]
    rfl

/-- The first install finds the log of the other flow still in place. -/
theorem swapPlan_fails : ∃ evs r journal d',
    Runs MapOp.exec (runLimitActions swapPlan.actions {}) swapMaps evs (r, journal) d' ∧
      Obeys (fun op error d => swapCapacity.Decides op error d.shape) swapMaps evs ∧
      r.isOk = false := by
  refine ⟨_, _, _, _, runs_exec MapOp.exec (runLimitActions swapPlan.actions {})
    (fun n => if n = 3 then some ⟨["map full"]⟩ else none) swapMaps, ?_, rfl⟩
  refine ⟨iff_of_true rfl trivial, iff_of_true rfl trivial, iff_of_true rfl trivial,
    iff_of_false (Option.some_ne_none _) ?_, trivial⟩
  intro h
  rcases h with held | free
  · exact Bool.noConfusion held
  · exact absurd free (Nat.not_lt.mpr ((Set.ncard_pos (Set.toFinite _)).mpr ⟨⟨2, dirRx⟩, rfl⟩))

theorem swapPlan_end_holds :
    swapCapacity.HoldsFlows (swapMaps.shape.carryOutAll swapPlan.actions) := by
  have flows : ∀ key, (swapMaps.shape.carryOutAll swapPlan.actions).flow key =
      if key = ⟨2, dirRx⟩ then .settled (some Limiter.receiveOnly.installed)
      else if key = ⟨1, dirRx⟩ then .settled (some logOnly.installed)
      else swapMaps.shape.flow key := fun _ => rfl
  refine swapCapacity_holds ⟨1, dirRx⟩ (?_) (?_) ?_
  · intro k hk
    by_contra hne
    obtain ⟨hfirst, hsecond⟩ := not_or.mp hne
    rw [flows, if_neg hsecond, if_neg hfirst] at hk
    simp [swapMaps, Dataplane.shape, hfirst, hsecond] at hk
  · intro k hk
    by_contra hne
    obtain ⟨hfirst, hsecond⟩ := not_or.mp hne
    rw [flows, if_neg hsecond, if_neg hfirst] at hk
    simp [swapMaps, Dataplane.shape, Dataplane.hasArtifact, hfirst] at hk
  · intro k hk
    by_contra hfirst
    by_cases hsecond : k = ⟨2, dirRx⟩
    · rw [flows, if_pos hsecond] at hk
      exact absurd hk (by decide)
    · rw [flows, if_neg hsecond, if_neg hfirst] at hk
      simp [swapMaps, Dataplane.shape, Dataplane.hasArtifact, hsecond] at hk

/-- Two flows trade algorithms. What the reload would end with fits, and in the order
that installs the log first it fails. -/
theorem reload_order_fails : ∃ l pending d limited plan,
    Limiter.Reachable RollingWindow.reachesExactly ValidatedConfig.Accepted false l pending ∧
    d.Matches l ∧ swapCapacity.HoldsFlows d.shape ∧
    (swapConfig logLimit Limiter.receiveLimit).Accepted ∧
    Visits limited l.Limited ∧
    l.planReload (swapConfig logLimit Limiter.receiveLimit) 1 limited = .ok plan ∧
    swapCapacity.HoldsFlows (d.shape.carryOutAll plan.actions) ∧
    ∃ evs r journal d', Runs MapOp.exec (runLimitActions plan.actions {}) d evs (r, journal) d' ∧
      Obeys (fun op error d => swapCapacity.Decides op error d.shape) d evs ∧ r.isOk = false :=
  ⟨swapRun.1, swapRun.2, swapMaps, _, swapPlan, swapRun_reachable.1, swapMaps_matches,
    swapMaps_holds, accepted_swapConfig.2, swapPlan_planned.1, swapPlan_planned.2,
    swapPlan_end_holds, swapPlan_fails⟩

/-- So there is no room for all users of some artifact at once. -/
theorem reload_fits_in_every_order_iff_swap :
    ¬ ∀ a, (swapRun.1.usersOf (swapRanges logOnly Limiter.receiveOnly) Table.empty 1 a).ncard ≤
      swapCapacity.artifacts a := by
  intro room
  obtain ⟨evs, r, journal, d', run, obeys, failed⟩ := swapPlan_fails
  have every := (reload_fits_in_every_order_iff swapCapacity swapRun_reachable.1 swapMaps
    swapMaps_matches swapMaps_holds (swapConfig logLimit Limiter.receiveLimit)
    (swapRanges logOnly Limiter.receiveOnly) Table.empty rfl 1).mpr room
  have ok := every _ swapPlan swapPlan_planned.1 swapPlan_planned.2 evs r journal d' run obeys
  rw [failed] at ok
  cases ok

end VmWatcher

import VmWatcher.Daemon.TxMaps

/-!
# What a limit transaction is about

The shape of the maps forgets the contents of state artifacts and the verdict
counters: per flow it keeps the armed policy and which artifacts exist, and it keeps
the whitelisted prefixes. The map operations act on shapes (`Shape.exec`), and a run
on the maps is a run on their shape (`runs_shape`), so what a transaction arms,
restores or leaves behind is proved on shapes.
-/

namespace VmWatcher

/-- One flow: its armed policy and the artifacts it has. -/
@[ext] structure FlowShape where
  policy : Option LimitPolicy
  artifacts : Artifact → Bool

namespace FlowShape

def arm (policy : LimitPolicy) (f : FlowShape) : FlowShape := { f with policy := some policy }

def disarm (f : FlowShape) : FlowShape := { f with policy := none }

def write (a : Artifact) (f : FlowShape) : FlowShape :=
  { f with artifacts := Function.update f.artifacts a true }

def clear (a : Artifact) (f : FlowShape) : FlowShape :=
  { f with artifacts := Function.update f.artifacts a false }

@[simp] theorem arm_policy (p : LimitPolicy) (f : FlowShape) : (f.arm p).policy = some p := rfl
@[simp] theorem arm_artifacts (p : LimitPolicy) (f : FlowShape) :
    (f.arm p).artifacts = f.artifacts := rfl
@[simp] theorem disarm_policy (f : FlowShape) : f.disarm.policy = none := rfl
@[simp] theorem disarm_artifacts (f : FlowShape) : f.disarm.artifacts = f.artifacts := rfl
@[simp] theorem write_policy (a : Artifact) (f : FlowShape) : (f.write a).policy = f.policy := rfl
@[simp] theorem clear_policy (a : Artifact) (f : FlowShape) : (f.clear a).policy = f.policy := rfl

@[simp] theorem write_artifacts_self (a : Artifact) (f : FlowShape) :
    (f.write a).artifacts a = true := by simp [write]

/-- The hard invariant of one flow: an armed policy has its algorithm's artifact. -/
def Hard (f : FlowShape) : Prop :=
  ∀ p, f.policy = some p → f.artifacts (artifactOf p.algorithm) = true

/-- The flow with this policy armed, if any, its artifact and no other. -/
def settled (policy : Option LimitPolicy) : FlowShape where
  policy := policy
  artifacts := fun a => policy.any fun p => artifactOf p.algorithm = a

/-- Every artifact of the flow belongs to its armed policy, and that one is there. -/
def Settled (f : FlowShape) : Prop := f = settled f.policy

end FlowShape

/-- The flows and the whitelisted prefixes. -/
@[ext] structure Shape where
  flow : LimitKey → FlowShape
  whitelisted : Cidr → Bool

namespace Shape

/-- Change one flow. -/
def onFlow (key : LimitKey) (g : FlowShape → FlowShape) (σ : Shape) : Shape :=
  { σ with flow := fun k => if k = key then g (σ.flow k) else σ.flow k }

/-- Whitelist a prefix, or take it off the whitelist. -/
def setPrefix (cidr : Cidr) (listed : Bool) (σ : Shape) : Shape :=
  { σ with whitelisted := Function.update σ.whitelisted cidr listed }

variable {σ : Shape} {key k : LimitKey} {g g' : FlowShape → FlowShape}

@[simp] theorem onFlow_flow_self : (σ.onFlow key g).flow key = g (σ.flow key) := if_pos rfl

@[simp] theorem onFlow_flow_of_ne (h : k ≠ key) : (σ.onFlow key g).flow k = σ.flow k := if_neg h

@[simp] theorem onFlow_whitelisted : (σ.onFlow key g).whitelisted = σ.whitelisted := rfl

@[simp] theorem setPrefix_flow (cidr : Cidr) (listed : Bool) :
    (σ.setPrefix cidr listed).flow = σ.flow := rfl

@[simp] theorem onFlow_onFlow :
    (σ.onFlow key g).onFlow key g' = σ.onFlow key fun f => g' (g f) := by
  ext k : 2
  · by_cases h : k = key
    · subst h
      simp
    · simp [h]
  · rfl

theorem onFlow_eq_self (h : g (σ.flow key) = σ.flow key) : σ.onFlow key g = σ := by
  ext k : 2
  · by_cases hk : k = key
    · subst hk
      simpa using h
    · simp [hk]
  · rfl

theorem onFlow_congr (h : g (σ.flow key) = g' (σ.flow key)) : σ.onFlow key g = σ.onFlow key g' := by
  ext k : 2
  · by_cases hk : k = key
    · subst hk
      simpa using h
    · simp [hk]
  · rfl

/-- The map operations on shapes. -/
def exec : (op : MapOp) → Shape → op.Res × Shape
  | .getPolicy key, σ => ((σ.flow key).policy, σ)
  | .armPolicy key policy, σ => ((), σ.onFlow key (.arm policy))
  | .disarmPolicy key, σ => ((), σ.onFlow key .disarm)
  | .writeFreshState key algorithm, σ => ((), σ.onFlow key (.write (artifactOf algorithm)))
  | .clearState key algorithm, σ => ((), σ.onFlow key (.clear (artifactOf algorithm)))
  | .clearPolicer _, σ => ((), σ)
  | .wlInsert cidr, σ => ((), σ.setPrefix cidr true)
  | .wlRemove cidr, σ => ((), σ.setPrefix cidr false)

/-- The hard invariant of every flow. -/
def Hard (σ : Shape) : Prop := ∀ key, (σ.flow key).Hard

/-- No flow has an artifact that does not belong to its armed policy. -/
def Settled (σ : Shape) : Prop := ∀ key, (σ.flow key).Settled

end Shape

namespace Dataplane

/-- What the maps show of themselves to a limit transaction. -/
def shape (d : Dataplane) : Shape where
  flow := fun key => { policy := d.policies key, artifacts := d.hasArtifact key }
  whitelisted := d.monitoredIps

theorem hard_iff_shape (d : Dataplane) : d.Hard ↔ d.shape.Hard := Iff.rfl

/-- No orphans: every state artifact belongs to an armed policy that keeps its state
there. -/
def NoOrphans (d : Dataplane) : Prop :=
  ∀ key a, d.hasArtifact key a = true →
    ∃ policy, d.policies key = some policy ∧ artifactOf policy.algorithm = a

theorem shape_settled_iff (d : Dataplane) : d.shape.Settled ↔ d.Hard ∧ d.NoOrphans := by
  constructor
  · intro h
    refine ⟨?_, ?_⟩
    · intro key policy hpolicy
      have := congrArg (fun f => f.artifacts (artifactOf policy.algorithm)) (h key)
      simpa [FlowShape.settled, shape, hpolicy] using this
    · intro key a ha
      have := congrArg (fun f => f.artifacts a) (h key)
      simpa [FlowShape.settled, shape, ha, Option.any_eq_true] using this
  · rintro ⟨hard, orphans⟩ key
    ext a : 2
    · rfl
    · simp only [FlowShape.settled, shape]
      rw [Bool.eq_iff_iff, Option.any_eq_true]
      simp only [decide_eq_true_eq]
      constructor
      · exact orphans key a
      · intro given
        obtain ⟨policy, hpolicy, rfl⟩ := given
        exact hard key policy hpolicy

/-- Two maps whose flows and prefixes agree with a change of one flow's shape. -/
theorem shape_eq_onFlow {d d' : Dataplane} {key : LimitKey} {g : FlowShape → FlowShape}
    (self : d'.shape.flow key = g (d.shape.flow key))
    (other : ∀ k, k ≠ key → d'.shape.flow k = d.shape.flow k)
    (listed : d'.monitoredIps = d.monitoredIps) : d'.shape = d.shape.onFlow key g := by
  refine Shape.ext (funext fun k => ?_) listed
  by_cases h : k = key
  · subst h
    rw [self, Shape.onFlow_flow_self]
  · rw [other k h, Shape.onFlow_flow_of_ne h]

/-- A change of one entry of `SWL_LOG`. -/
theorem shape_setRing (d : Dataplane) {t : Table LimitKey SwlRing} {key : LimitKey} {there : Bool}
    (self : (t key).isSome = there) (other : ∀ k, k ≠ key → t k = d.swlLog k) :
    ({ d with swlLog := t } : Dataplane).shape = d.shape.onFlow key fun f =>
      { f with artifacts := Function.update f.artifacts .ring there } := by
  refine shape_eq_onFlow ?_ (?_) rfl
  · refine FlowShape.ext rfl (funext fun a => ?_)
    cases a <;> simp [shape, hasArtifact, self]
  · intro k h
    refine FlowShape.ext rfl (funext fun a => ?_)
    cases a <;> simp [shape, hasArtifact, other k h]

/-- A change of one entry of `LIMIT_STATE`. -/
theorem shape_setState (d : Dataplane) {t : Table LimitKey LimitState} {key : LimitKey}
    {there : Bool} (self : (t key).isSome = there)
    (other : ∀ k, k ≠ key → t k = d.limitState k) :
    ({ d with limitState := t } : Dataplane).shape = d.shape.onFlow key fun f =>
      { f with artifacts := Function.update f.artifacts .state there } := by
  refine shape_eq_onFlow ?_ (?_) rfl
  · refine FlowShape.ext rfl (funext fun a => ?_)
    cases a <;> simp [shape, hasArtifact, self]
  · intro k h
    refine FlowShape.ext rfl (funext fun a => ?_)
    cases a <;> simp [shape, hasArtifact, other k h]

/-- The maps and their shape carry out every operation alike. -/
theorem exec_shape (op : MapOp) (d : Dataplane) :
    ((op.exec d).1, (op.exec d).2.shape) = Shape.exec op d.shape := by
  cases op with
  | getPolicy key => rfl
  | armPolicy key policy =>
    refine Prod.ext rfl (shape_eq_onFlow ?_ (?_) rfl)
    · exact FlowShape.ext Table.insert_self rfl
    · intro k h
      exact FlowShape.ext (Table.insert_of_ne h) rfl
  | disarmPolicy key =>
    refine Prod.ext rfl (shape_eq_onFlow ?_ (?_) rfl)
    · exact FlowShape.ext Table.remove_self rfl
    · intro k h
      exact FlowShape.ext (Table.remove_of_ne h) rfl
  | writeFreshState key algorithm =>
    simp only [MapOp.exec, Shape.exec, artifactOf]
    split
    · exact Prod.ext rfl (shape_setRing d (by simp) fun k h => Table.insert_of_ne h)
    · exact Prod.ext rfl (shape_setState d (by simp) fun k h => Table.insert_of_ne h)
  | clearState key algorithm =>
    simp only [MapOp.exec, Shape.exec, artifactOf]
    split
    · exact Prod.ext rfl (shape_setRing d (by simp) fun k h => Table.remove_of_ne h)
    · exact Prod.ext rfl (shape_setState d (by simp) fun k h => Table.remove_of_ne h)
  | clearPolicer key => rfl
  | wlInsert cidr => rfl
  | wlRemove cidr => rfl

/-- Maps with one flow armed and its state artifact in place. -/
def armedFlow (key : LimitKey) (policy : LimitPolicy) : Dataplane :=
  { Dataplane.empty with
    policies := Table.empty.insert key policy
    limitState := if artifactOf policy.algorithm = .state then Table.empty.insert key {}
      else Table.empty
    swlLog := if artifactOf policy.algorithm = .ring then Table.empty.insert key {}
      else Table.empty }

theorem armedFlow_settled (key : LimitKey) (policy : LimitPolicy) :
    (armedFlow key policy).Hard ∧ (armedFlow key policy).NoOrphans := by
  rw [← shape_settled_iff]
  intro k
  refine FlowShape.ext rfl (funext fun a => ?_)
  by_cases hk : k = key
  · subst hk
    cases a <;> cases hart : artifactOf policy.algorithm <;>
      simp [armedFlow, shape, hasArtifact, FlowShape.settled, hart]
  · cases a <;> cases hart : artifactOf policy.algorithm <;>
      simp [armedFlow, shape, hasArtifact, FlowShape.settled, hart, hk]

/-- A run on the maps is a run on their shape. -/
theorem runs_shape {α : Type} {prog : Prog α} {d d' : Dataplane}
    {evs : List (OpProg.Event MapOp AnyError Dataplane)} {a : α}
    (run : OpProg.Runs MapOp.exec prog d evs a d') :
    OpProg.Runs Shape.exec prog d.shape (evs.map (OpProg.Event.map shape)) a d'.shape :=
  run.map exec_shape

end Dataplane

end VmWatcher

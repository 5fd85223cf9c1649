import VmWatcher.Daemon.Shape
import VmWatcher.Daemon.TxRules

/-!
# How far an install or a remove gets

Whatever operation fails, `install_limit` ends at one of the stages of `InstallStage`
and `remove_limit` at one of `RemoveStage`: the journal record and the flow it leaves.
Every stage is a state in between as well, so the two theorems of this file say all
that the later files need to know about the two protocols.
-/

namespace VmWatcher

namespace Shape

/-- The operation takes the hard invariant along. -/
def KeepsHard (op : MapOp) (σ : Shape) : Prop := σ.Hard → (exec op σ).2.Hard

variable {σ : Shape} {key : LimitKey}

theorem hard_onFlow {g : FlowShape → FlowShape} (hσ : σ.Hard)
    (hg : (σ.flow key).Hard → (g (σ.flow key)).Hard) : (σ.onFlow key g).Hard := by
  intro k
  by_cases h : k = key
  · subst h
    simpa using hg (hσ k)
  · simpa [h] using hσ k

theorem keepsHard_getPolicy : KeepsHard (.getPolicy key) σ := id

theorem keepsHard_clearPolicer : KeepsHard (.clearPolicer key) σ := id

theorem keepsHard_wlInsert {cidr : Cidr} : KeepsHard (.wlInsert cidr) σ := id

theorem keepsHard_wlRemove {cidr : Cidr} : KeepsHard (.wlRemove cidr) σ := id

theorem keepsHard_disarm : KeepsHard (.disarmPolicy key) σ := fun hσ =>
  hard_onFlow hσ fun _ p hp => by simp at hp

theorem keepsHard_write {algorithm : UInt32} : KeepsHard (.writeFreshState key algorithm) σ :=
  fun hσ => hard_onFlow hσ fun hf p hp => by
    have := hf p hp
    by_cases h : artifactOf p.algorithm = artifactOf algorithm <;>
      simp [FlowShape.write, h, this]

theorem keepsHard_arm {policy : LimitPolicy}
    (h : (σ.flow key).artifacts (artifactOf policy.algorithm) = true) :
    KeepsHard (.armPolicy key policy) σ := fun hσ =>
  hard_onFlow hσ fun _ p hp => by
    cases hp
    exact h

theorem keepsHard_clear {algorithm : UInt32} (h : (σ.flow key).policy = none) :
    KeepsHard (.clearState key algorithm) σ := fun hσ =>
  hard_onFlow hσ fun _ p hp => by simp [h] at hp

/-- An operation on this flow that takes the hard invariant along. -/
def SafeOn (key : LimitKey) (op : MapOp) (σ : Shape) : Prop :=
  KeepsHard op σ ∧ op.target = .flow key

end Shape

/-- The flow once the displaced policy, if there is one, is out of the way. -/
def FlowShape.displaced (policy : LimitPolicy) (f : FlowShape) : FlowShape :=
  match f.policy with
  | none => f
  | some old =>
      if old.algorithm ≠ policy.algorithm then f.disarm.clear (artifactOf old.algorithm)
      else f.disarm

theorem FlowShape.displaced_policy (policy : LimitPolicy) (f : FlowShape) :
    (f.displaced policy).policy = none := by
  unfold displaced
  split
  next h => exact h
  next => split <;> rfl

/-- The stages of an install: the record it has journaled and the flow as it stands. -/
inductive InstallStage (key : LimitKey) (policy : LimitPolicy) (f : FlowShape) :
    InstallRecord → FlowShape → Prop where
  | started : InstallStage key policy f { key, old := f.policy } f
  | disarmed (old : LimitPolicy) (displaces : f.policy = some old) :
      InstallStage key policy f { key, old := some old, oldDisarmed := true } f.disarm
  | displaced (old : LimitPolicy) (displaces : f.policy = some old) :
      InstallStage key policy f { key, old := some old, oldDisarmed := true } (f.displaced policy)
  | written :
      InstallStage key policy f
        { key, old := f.policy, oldDisarmed := f.policy.isSome
          newAlgorithm := some policy.algorithm }
        ((f.displaced policy).write (artifactOf policy.algorithm))
  | armed :
      InstallStage key policy f
        { key, old := f.policy, oldDisarmed := f.policy.isSome
          newAlgorithm := some policy.algorithm, armed := true }
        (((f.displaced policy).write (artifactOf policy.algorithm)).arm policy)

theorem InstallStage.key_eq {key : LimitKey} {policy : LimitPolicy} {f f' : FlowShape}
    {rec : InstallRecord} (stage : InstallStage key policy f rec f') : rec.key = key := by
  cases stage <;> rfl

theorem InstallStage.ofDisplaced (key : LimitKey) (policy : LimitPolicy) (f : FlowShape) :
    InstallStage key policy f { key, old := f.policy, oldDisarmed := f.policy.isSome }
      (f.displaced policy) := by
  cases h : f.policy with
  | none =>
    have same : f.displaced policy = f := by simp only [FlowShape.displaced, h]
    have first : InstallStage key policy f { key, old := f.policy } f := .started
    rw [h] at first
    rw [same]
    exact first
  | some old => exact .displaced old h

/-- How an install ends: without a record when the old policy could not be read, and
otherwise at a stage, the last one exactly when it succeeds. -/
def InstallEnd (key : LimitKey) (policy : LimitPolicy) (journal : TxJournal) (σ : Shape)
    (r : Except AnyError Unit) (journal' : TxJournal) (σ' : Shape) : Prop :=
  (r.isOk = false ∧ journal' = journal ∧ σ' = σ) ∨
    ∃ rec f', InstallStage key policy (σ.flow key) rec f' ∧ r.isOk = rec.armed ∧
      journal' = journal.pushInstall rec ∧ σ' = σ.onFlow key fun _ => f'

theorem InstallEnd.failedAt {key : LimitKey} {policy : LimitPolicy} {journal : TxJournal}
    {σ σ' : Shape} {rec : InstallRecord} {f' : FlowShape} (e : AnyError)
    (stage : InstallStage key policy (σ.flow key) rec f') (unarmed : rec.armed = false)
    (reached : σ' = σ.onFlow key fun _ => f') :
    InstallEnd key policy journal σ (.error e) (journal.pushInstall rec) σ' :=
  Or.inr ⟨rec, f', stage, unarmed.symm, rfl, reached⟩

/-- Taking down the displaced policy either ends the install or leaves the flow ready
for the fresh artifact. -/
theorem wp_disarmDisplaced (key : LimitKey) (policy : LimitPolicy) (journal : TxJournal)
    (σ : Shape) :
    Tx.wp Shape.exec (Shape.SafeOn key) (disarmDisplaced key policy (σ.flow key).policy)
      (fun r journal' σ' =>
        match r with
        | .error e => InstallEnd key policy journal σ (.error e) journal' σ'
        | .ok _ =>
          journal' = journal.pushInstall
              { key, old := (σ.flow key).policy, oldDisarmed := (σ.flow key).policy.isSome } ∧
            σ' = σ.onFlow key (.displaced policy))
      (journal.pushInstall { key, old := (σ.flow key).policy }) σ := by
  cases h : (σ.flow key).policy with
  | none =>
    have same : (σ.flow key).displaced policy = σ.flow key := by
      simp only [FlowShape.displaced, h]
    exact ⟨rfl, (Shape.onFlow_eq_self same).symm⟩
  | some old =>
    have first : InstallStage key policy (σ.flow key) { key, old := some old } (σ.flow key) :=
      h ▸ .started
    rw [disarmDisplaced, Tx.wp_perform_bind]
    refine ⟨⟨Shape.keepsHard_disarm, rfl⟩, ?_, ?_⟩
    · rw [Tx.wp_journaled_bind]
      by_cases differs : old.algorithm ≠ policy.algorithm
      · have ready : (σ.flow key).displaced policy =
            (σ.flow key).disarm.clear (artifactOf old.algorithm) := by
          simp only [FlowShape.displaced, h, if_pos differs]
        rw [if_pos differs]
        refine ⟨⟨Shape.keepsHard_clear (by simp [Shape.exec]), rfl⟩, ⟨rfl, ?_⟩, ?_⟩
        · simp only [Shape.exec, Shape.onFlow_onFlow]
          exact Shape.onFlow_congr ready.symm
        · intro e
          exact InstallEnd.failedAt e (.disarmed old h) rfl (Shape.onFlow_congr rfl)
      · have ready : (σ.flow key).displaced policy = (σ.flow key).disarm := by
          simp only [FlowShape.displaced, h, if_neg differs]
        rw [if_neg differs]
        exact ⟨rfl, Shape.onFlow_congr ready.symm⟩
    · intro e
      exact .failedAt e first rfl (Shape.onFlow_eq_self rfl).symm

theorem wp_installLimit (key : LimitKey) (policy : LimitPolicy) (journal : TxJournal)
    (σ : Shape) :
    Tx.wp Shape.exec (Shape.SafeOn key) (installLimit key policy)
      (InstallEnd key policy journal σ) journal σ := by
  rw [installLimit, Tx.wp_perform_bind]
  refine ⟨⟨Shape.keepsHard_getPolicy, rfl⟩, ?_, fun e => Or.inl ⟨rfl, rfl, rfl⟩⟩
  rw [Tx.wp_journaled_bind, Tx.wp_bind]
  refine Tx.wp_mono (wp_disarmDisplaced key policy journal σ) ?_
  intro r journal' σ' h
  cases r with
  | error e => exact h
  | ok _ =>
    obtain ⟨rfl, rfl⟩ := h
    have unarmed := FlowShape.displaced_policy policy (σ.flow key)
    rw [Tx.wp_perform_bind]
    refine ⟨⟨Shape.keepsHard_write, rfl⟩, ?_, ?_⟩
    · rw [Tx.wp_journaled_bind, Tx.wp_perform_bind]
      refine ⟨⟨Shape.keepsHard_arm (by simp [Shape.exec]), rfl⟩, ?_, ?_⟩
      · refine Or.inr ⟨_, _, .armed, rfl, rfl, ?_⟩
        simp only [Shape.exec, Shape.onFlow_onFlow]
        exact Shape.onFlow_congr rfl
      · intro e
        refine .failedAt e .written rfl ?_
        simp only [Shape.exec, Shape.onFlow_onFlow]
        exact Shape.onFlow_congr rfl
    · intro e
      exact .failedAt e (.ofDisplaced key policy (σ.flow key)) rfl (Shape.onFlow_congr rfl)

/-- The stages of a remove: the record it has journaled and the flow as it stands. -/
inductive RemoveStage (key : LimitKey) (old : LimitPolicy) (f : FlowShape) :
    RemoveRecord → FlowShape → Prop where
  | started : RemoveStage key old f { key, old } f
  | disarmed : RemoveStage key old f { key, old, disarmed := true } f.disarm
  | cleared :
      RemoveStage key old f { key, old, disarmed := true }
        (f.disarm.clear (artifactOf old.algorithm))

theorem RemoveStage.key_eq {key : LimitKey} {old : LimitPolicy} {f f' : FlowShape}
    {rec : RemoveRecord} (stage : RemoveStage key old f rec f') : rec.key = key := by
  cases stage <;> rfl

/-- How a remove ends: without a record when there is nothing to remove or the policy
could not be read, and otherwise at a stage, the last one when it succeeds. -/
def RemoveEnd (key : LimitKey) (journal : TxJournal) (σ : Shape)
    (r : Except AnyError Unit) (journal' : TxJournal) (σ' : Shape) : Prop :=
  ((r.isOk → (σ.flow key).policy = none) ∧ journal' = journal ∧ σ' = σ) ∨
    ∃ old rec f', (σ.flow key).policy = some old ∧ RemoveStage key old (σ.flow key) rec f' ∧
      (r.isOk → f' = (σ.flow key).disarm.clear (artifactOf old.algorithm)) ∧
      journal' = journal.pushRemove rec ∧ σ' = σ.onFlow key fun _ => f'

theorem RemoveEnd.failedAt {key : LimitKey} {journal : TxJournal} {σ σ' : Shape}
    {old : LimitPolicy} {rec : RemoveRecord} {f' : FlowShape} (e : AnyError)
    (armed : (σ.flow key).policy = some old) (stage : RemoveStage key old (σ.flow key) rec f')
    (reached : σ' = σ.onFlow key fun _ => f') :
    RemoveEnd key journal σ (.error e) (journal.pushRemove rec) σ' :=
  Or.inr ⟨old, rec, f', armed, stage, Tx.not_ok, rfl, reached⟩

theorem wp_removeLimit (key : LimitKey) (journal : TxJournal) (σ : Shape) :
    Tx.wp Shape.exec (Shape.SafeOn key) (removeLimit key) (RemoveEnd key journal σ) journal σ := by
  rw [removeLimit, Tx.wp_perform_bind]
  refine ⟨⟨Shape.keepsHard_getPolicy, rfl⟩, ?_, ?_⟩
  · simp only [Shape.exec]
    cases h : (σ.flow key).policy with
    | none => exact Or.inl ⟨fun _ => h, rfl, rfl⟩
    | some old =>
      dsimp only
      rw [Tx.wp_journaled_bind, Tx.wp_perform_bind]
      refine ⟨⟨Shape.keepsHard_disarm, rfl⟩, ?_, ?_⟩
      · rw [Tx.wp_journaled_bind, Tx.wp_perform_bind]
        refine ⟨⟨Shape.keepsHard_clear (by simp [Shape.exec]), rfl⟩, ?_, ?_⟩
        · refine ⟨⟨Shape.keepsHard_clearPolicer, rfl⟩, ?_, ?_⟩
          · refine Or.inr ⟨old, _, _, h, .cleared, fun _ => rfl, rfl, ?_⟩
            simp only [Shape.exec, Shape.onFlow_onFlow]
            exact Shape.onFlow_congr rfl
          · intro e
            refine Or.inr ⟨old, _, _, h, .cleared, Tx.not_ok, rfl, ?_⟩
            simp only [Shape.exec, Shape.onFlow_onFlow]
            exact Shape.onFlow_congr rfl
        · intro e
          exact RemoveEnd.failedAt e h .disarmed (Shape.onFlow_congr rfl)
      · intro e
        exact RemoveEnd.failedAt e h .started (Shape.onFlow_eq_self rfl).symm
  · intro e
    exact Or.inl ⟨Tx.not_ok, rfl, rfl⟩

end VmWatcher

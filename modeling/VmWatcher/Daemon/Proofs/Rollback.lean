import VmWatcher.Daemon.Proofs.Stages

/-!
# What a rollback restores and what it reports

`TxJournal.undo` is what the playback of a journal does when none of its operations
fails. The playback either reports a failure for every operation that failed, or it
did exactly that (`rollbackJournal_restores`); and at every point of a transaction the
journal undoes what the transaction did so far (`applyReloadSteps_undoable`).
-/

namespace VmWatcher

open OpProg

/-! ### Undoing a record -/

/-- Fresh state first, arming last. -/
def FlowShape.restore (old : LimitPolicy) (f : FlowShape) : FlowShape :=
  (f.write (artifactOf old.algorithm)).arm old

/-- The new artifact goes, if there is one. -/
def InstallRecord.undoWrite (rec : InstallRecord) (f : FlowShape) : FlowShape :=
  match rec.newAlgorithm with
  | none => f
  | some algorithm => f.clear (artifactOf algorithm)

/-- The displaced policy comes back, if it was disarmed. -/
def InstallRecord.undoDisplace (rec : InstallRecord) (f : FlowShape) : FlowShape :=
  match rec.old with
  | none => f
  | some old => if rec.oldDisarmed then f.restore old else f

def InstallRecord.undo (rec : InstallRecord) (f : FlowShape) : FlowShape :=
  rec.undoDisplace (rec.undoWrite (if rec.armed then f.disarm else f))

def RemoveRecord.undo (rec : RemoveRecord) (f : FlowShape) : FlowShape :=
  if rec.disarmed then f.restore rec.old else f

/-- Undo a list of records, newest first. -/
def undoAll {ρ : Type} (undo : ρ → Shape → Shape) (recs : List ρ) (σ : Shape) : Shape :=
  recs.foldl (fun σ rec => undo rec σ) σ

namespace TxJournal

def undoInstalls (journal : TxJournal) : Shape → Shape :=
  undoAll (fun rec => Shape.onFlow rec.key rec.undo) journal.installs

def undoRemoves (journal : TxJournal) : Shape → Shape :=
  undoAll (fun rec => Shape.onFlow rec.key rec.undo) journal.removes

def undoWlRemoved (journal : TxJournal) : Shape → Shape :=
  undoAll (Shape.setPrefix · true) journal.wlRemoved

def undoWlAdded (journal : TxJournal) : Shape → Shape :=
  undoAll (Shape.setPrefix · false) journal.wlAdded

/-- What the playback of a journal does when nothing fails. -/
def undo (journal : TxJournal) (σ : Shape) : Shape :=
  journal.undoWlAdded (journal.undoWlRemoved (journal.undoRemoves (journal.undoInstalls σ)))

end TxJournal

/-! ### The playback restores or reports -/

/-- From `σ` the operations `evs` led to `σ'`: every one that failed is reported against
its flow or prefix, and where nothing new is reported `undo` was done. -/
def Restores (undo : Shape → Shape) (report : RollbackReport) (σ : Shape)
    (evs : List (Event MapOp AnyError Shape)) (report' : RollbackReport) (σ' : Shape) : Prop :=
  ∃ more, report'.failures = report.failures ++ more ∧
    (∀ ev ∈ evs, ev.error ≠ none → ∃ x ∈ more, x.target = ev.op.target) ∧
    (more = [] → σ' = undo σ)

namespace Restores

variable {undo undo' undo'' : Shape → Shape} {report report' report'' : RollbackReport}
variable {σ σ' σ'' : Shape} {evs evs' : List (Event MapOp AnyError Shape)}

/-- One stretch of the playback after another. -/
theorem trans (h : Restores undo report σ evs report' σ')
    (h' : Restores undo' report' σ' evs' report'' σ'') (hboth : undo'' σ = undo' (undo σ)) :
    Restores undo'' report σ (evs ++ evs') report'' σ'' := by
  obtain ⟨more, hmore, hnamed, hdone⟩ := h
  obtain ⟨more', hmore', hnamed', hdone'⟩ := h'
  refine ⟨more ++ more', by rw [hmore', hmore, List.append_assoc], ?_, ?_⟩
  · intro ev hev hfailed
    rcases List.mem_append.mp hev with hev | hev
    · obtain ⟨x, hx, htarget⟩ := hnamed ev hev hfailed
      exact ⟨x, List.mem_append_left _ hx, htarget⟩
    · obtain ⟨x, hx, htarget⟩ := hnamed' ev hev hfailed
      exact ⟨x, List.mem_append_right _ hx, htarget⟩
  · intro hnone
    obtain ⟨rfl, rfl⟩ := List.append_eq_nil_iff.mp hnone
    rw [hdone' rfl, hdone rfl, hboth]

/-- Nothing failed and nothing is reported. -/
theorem silent (same : report'.failures = report.failures)
    (fine : ∀ ev ∈ evs, ev.error = none) (done : σ' = undo σ) :
    Restores undo report σ evs report' σ' :=
  ⟨[], by simp [same], fun ev hev hfailed => absurd (fine ev hev) hfailed, fun _ => done⟩

/-- The last operation failed and is reported. -/
theorem failed (target : RollbackTarget) (op : String) (e : AnyError)
    (same : report'.failures = (report.fail target op e).failures)
    (named : ∀ ev ∈ evs, ev.error ≠ none → ev.op.target = target) :
    Restores undo report σ evs report' σ' :=
  ⟨[⟨target, op, e.display⟩], same,
    fun ev hev hfailed => ⟨_, List.mem_singleton_self _, (named ev hev hfailed).symm⟩,
    fun hnone => by simp at hnone⟩

/-- Only the failures of the two reports matter. -/
theorem of_failures {report₁ report₁' : RollbackReport}
    (h : Restores undo report₁ σ evs report₁' σ') (before : report₁.failures = report.failures)
    (after : report'.failures = report₁'.failures) :
    Restores undo report σ evs report' σ' := by
  unfold Restores at h ⊢
  rwa [after, ← before]

end Restores

/-- No condition on the operations. -/
def AnyOp (_ : MapOp) (_ : Shape) : Prop := True

theorem restorePolicy_restores (key : LimitKey) (old : LimitPolicy) (rearm : String)
    (report : RollbackReport) (σ : Shape) :
    wp Shape.exec AnyOp (restorePolicy key old rearm report)
      (fun evs r σ' => Restores (Shape.onFlow key (.restore old)) report σ evs r.1 σ') σ := by
  refine ⟨trivial, ⟨trivial, ?_, ?_⟩, ?_⟩
  · refine Restores.silent rfl (by simp) ?_
    simp only [Shape.exec, Shape.onFlow_onFlow]
    rfl
  · intro e
    exact Restores.failed (.flow key) rearm e rfl (by simp [MapOp.target])
  · intro e
    exact Restores.failed (.flow key) "restore state (flow stays unarmed)" e rfl
      (by simp [MapOp.target])

theorem clearNewState_restores (rec : InstallRecord) (report : RollbackReport) (σ : Shape) :
    wp Shape.exec AnyOp (clearNewState rec report)
      (fun evs r σ' => Restores (Shape.onFlow rec.key rec.undoWrite) report σ evs r.1 σ') σ := by
  unfold clearNewState InstallRecord.undoWrite
  cases rec.newAlgorithm with
  | none => exact Restores.silent rfl (by simp) (Shape.onFlow_eq_self rfl).symm
  | some algorithm =>
    refine ⟨trivial, ?_, ?_⟩
    · exact Restores.silent rfl (by simp) rfl
    · intro e
      exact Restores.failed (.flow rec.key) "clear new state" e rfl (by simp [MapOp.target])

theorem restoreDisplaced_restores (rec : InstallRecord) (report : RollbackReport) (σ : Shape) :
    wp Shape.exec AnyOp (restoreDisplaced rec report)
      (fun evs r σ' => Restores (Shape.onFlow rec.key rec.undoDisplace) report σ evs r.1 σ')
      σ := by
  unfold restoreDisplaced InstallRecord.undoDisplace
  cases rec.old with
  | none => exact Restores.silent rfl (by simp) (Shape.onFlow_eq_self rfl).symm
  | some old =>
    by_cases h : rec.oldDisarmed
    · simp only [h, if_true]
      exact restorePolicy_restores rec.key old "re-arm old policy" report σ
    · simp only [h]
      exact Restores.silent rfl (by simp) (Shape.onFlow_eq_self rfl).symm

@[simp] theorem RollbackReport.failures_close (report : RollbackReport) (ok : Bool) :
    (report.close ok).failures = report.failures := by
  cases ok <;> rfl

theorem takeBack_restores (rec : InstallRecord) (report : RollbackReport) (σ : Shape) :
    wp Shape.exec AnyOp (takeBack rec report)
      (fun evs report' σ' => Restores
        (Shape.onFlow rec.key fun f => rec.undoDisplace (rec.undoWrite f)) report σ evs report' σ')
      σ := by
  refine wp_takeBack (wp_mono (clearNewState_restores rec report σ) fun evs r σ' h => ?_)
  refine wp_mono (restoreDisplaced_restores rec r.1 σ') fun evs' r' σ'' h' => ?_
  exact (Restores.trans h h' Shape.onFlow_onFlow.symm).of_failures rfl (by simp)

theorem rollbackInstall_restores (rec : InstallRecord) (report : RollbackReport) (σ : Shape) :
    wp Shape.exec AnyOp (rollbackInstall rec report)
      (fun evs report' σ' => Restores (Shape.onFlow rec.key rec.undo) report σ evs report' σ')
      σ := by
  unfold InstallRecord.undo
  by_cases armed : rec.armed = true
  · rw [rollbackInstall_armed armed]
    simp only [armed, if_true]
    refine ⟨trivial, ?_, ?_⟩
    · refine wp_mono (takeBack_restores rec _ _) fun evs report' σ' h => ?_
      have disarmed : Restores (Shape.onFlow rec.key .disarm) report σ
          [⟨.disarmPolicy rec.key, none, σ.onFlow rec.key .disarm⟩] report
          (σ.onFlow rec.key .disarm) := Restores.silent rfl (by simp) rfl
      refine disarmed.trans (h.of_failures rfl rfl) ?_
      rw [Shape.onFlow_onFlow]
    · intro e
      exact Restores.failed (.flow rec.key) "disarm new policy (kept new policy + state)" e rfl
        (by simp [MapOp.target])
  · rw [rollbackInstall_unarmed armed]
    simp only [armed]
    exact wp_mono (takeBack_restores rec _ σ) fun evs report' σ' h => h.of_failures rfl rfl

theorem rollbackRemove_restores (rec : RemoveRecord) (report : RollbackReport) (σ : Shape) :
    wp Shape.exec AnyOp (rollbackRemove rec report)
      (fun evs report' σ' => Restores (Shape.onFlow rec.key rec.undo) report σ evs report' σ')
      σ := by
  unfold rollbackRemove RemoveRecord.undo
  by_cases h : rec.disarmed = true
  · simp only [h, if_true]
    rw [wp_bind]
    refine wp_mono (restorePolicy_restores rec.key rec.old "re-arm removed policy" _ σ)
      fun evs r σ' h => ?_
    change Restores _ report σ (evs ++ []) (r.1.close _) σ'
    rw [List.append_nil]
    exact h.of_failures rfl (by simp)
  · simp only [h]
    exact Restores.silent rfl (by simp) (Shape.onFlow_eq_self rfl).symm

theorem rollbackWlRemoved_restores (c : Cidr) (report : RollbackReport) (σ : Shape) :
    wp Shape.exec AnyOp (rollbackWlRemoved c report)
      (fun evs report' σ' => Restores (Shape.setPrefix c true) report σ evs report' σ') σ := by
  refine ⟨trivial, ?_, ?_⟩
  · exact Restores.silent rfl (by simp) rfl
  · intro e
    exact Restores.failed (.pref c) "re-add whitelist prefix" e rfl (by simp [MapOp.target])

theorem rollbackWlAdded_restores (c : Cidr) (report : RollbackReport) (σ : Shape) :
    wp Shape.exec AnyOp (rollbackWlAdded c report)
      (fun evs report' σ' => Restores (Shape.setPrefix c false) report σ evs report' σ') σ := by
  refine ⟨trivial, ?_, ?_⟩
  · exact Restores.silent rfl (by simp) rfl
  · intro e
    exact Restores.failed (.pref c) "remove whitelist prefix" e rfl (by simp [MapOp.target])

theorem playBack_restores {ρ : Type} {rollback : ρ → RollbackReport → Prog RollbackReport}
    {undo : ρ → Shape → Shape}
    (one : ∀ rec report σ, wp Shape.exec AnyOp (rollback rec report)
      (fun evs report' σ' => Restores (undo rec) report σ evs report' σ') σ)
    (recs : List ρ) (report : RollbackReport) (σ : Shape) :
    wp Shape.exec AnyOp (playBack rollback recs report)
      (fun evs report' σ' => Restores (undoAll undo recs) report σ evs report' σ') σ := by
  induction recs generalizing report σ with
  | nil => exact Restores.silent rfl (by simp) rfl
  | cons rec recs ih =>
    rw [playBack, wp_bind]
    refine wp_mono (one rec report σ) fun evs report' σ' h => ?_
    exact wp_mono (ih report' σ') fun evs' report'' σ'' h' => h.trans h' rfl

/-- Whatever fails: either the report names every operation that failed, or the
playback took back all that the journal holds. -/
theorem rollbackJournal_restores (journal : TxJournal) (σ : Shape) :
    wp Shape.exec AnyOp (rollbackJournal journal)
      (fun evs report σ' =>
        report.dataplaneConsistent = report.failures.isEmpty ∧
          (∀ ev ∈ evs, ev.error ≠ none → ∃ x ∈ report.failures, x.target = ev.op.target) ∧
          (report.dataplaneConsistent → σ' = journal.undo σ)) σ := by
  unfold rollbackJournal
  rw [wp_bind]
  refine wp_mono (playBack_restores rollbackInstall_restores journal.installs {} σ)
    fun evs₁ report₁ σ₁ h₁ => ?_
  rw [wp_bind]
  refine wp_mono (playBack_restores rollbackRemove_restores journal.removes report₁ σ₁)
    fun evs₂ report₂ σ₂ h₂ => ?_
  rw [wp_bind]
  refine wp_mono (playBack_restores rollbackWlRemoved_restores journal.wlRemoved report₂ σ₂)
    fun evs₃ report₃ σ₃ h₃ => ?_
  rw [wp_bind]
  refine wp_mono (playBack_restores rollbackWlAdded_restores journal.wlAdded report₃ σ₃)
    fun evs₄ report₄ σ₄ h₄ => ?_
  have all : Restores journal.undo {} σ (evs₁ ++ (evs₂ ++ (evs₃ ++ (evs₄ ++ [])))) report₄ σ₄ := by
    rw [List.append_nil]
    have whitelist : Restores (fun σ => journal.undoWlAdded (journal.undoWlRemoved σ)) report₂ σ₂
        (evs₃ ++ evs₄) report₄ σ₄ := h₃.trans h₄ rfl
    have removes : Restores
        (fun σ => journal.undoWlAdded (journal.undoWlRemoved (journal.undoRemoves σ))) report₁ σ₁
        (evs₂ ++ (evs₃ ++ evs₄)) report₄ σ₄ := h₂.trans whitelist rfl
    exact h₁.trans removes rfl
  obtain ⟨more, hmore, hnamed, hdone⟩ := all
  rw [List.nil_append] at hmore
  subst hmore
  exact ⟨rfl, hnamed, fun h => hdone (List.isEmpty_iff.mp h)⟩

/-! ### The stages of a settled flow can be undone -/

namespace FlowShape

variable {f : FlowShape}

@[simp] theorem settled_policy (policy : Option LimitPolicy) : (settled policy).policy = policy :=
  rfl

theorem settled_settled (policy : Option LimitPolicy) : (settled policy).Settled := rfl

theorem clear_write (a : Artifact) (f : FlowShape) : (f.write a).clear a = f.clear a := by
  simp [clear, write]

theorem disarm_arm (p : LimitPolicy) (h : f.policy = none) : (f.arm p).disarm = f :=
  FlowShape.ext h.symm rfl

theorem clear_settled_none (a : Artifact) : (settled none).clear a = settled none := by
  simp [clear, settled]

/-- An artifact of its own is all that an armed flow has. -/
theorem clear_disarm_settled (p : LimitPolicy) :
    (settled (some p)).disarm.clear (artifactOf p.algorithm) = settled none := by
  ext a : 2
  · rfl
  · by_cases h : a = artifactOf p.algorithm
    · simp [clear, settled, h]
    · simp [clear, settled, h, Ne.symm h]

theorem restore_settled_none (p : LimitPolicy) : (settled none).restore p = settled (some p) := by
  ext a : 2
  · rfl
  · by_cases h : a = artifactOf p.algorithm
    · simp [restore, write, settled, h]
    · simp [restore, write, settled, h, Ne.symm h]

theorem restore_disarm_settled (p : LimitPolicy) :
    (settled (some p)).disarm.restore p = settled (some p) := by
  ext a : 2
  · rfl
  · by_cases h : a = artifactOf p.algorithm
    · simp [restore, write, settled, h]
    · simp [restore, write, settled, h]

/-- What is left of a settled flow once the displaced policy is out of the way: nothing,
or the artifact the new policy needs as well. -/
theorem displaced_settled (policy : Option LimitPolicy) (p : LimitPolicy) :
    (settled policy).displaced p = settled none ∨
      (settled policy).displaced p = (settled (some p)).disarm := by
  cases policy with
  | none => exact Or.inl rfl
  | some old =>
    by_cases h : old.algorithm = p.algorithm
    · have same : (settled (some old)).disarm = (settled (some p)).disarm := by
        simp [settled, disarm, h]
      exact Or.inr ((if_neg (not_not.mpr h)).trans same)
    · exact Or.inl ((if_pos h).trans (clear_disarm_settled old))

/-- The fresh artifact of a new policy, taken away again, leaves the flow bare. -/
theorem clear_write_displaced (policy : Option LimitPolicy) (p : LimitPolicy) :
    (((settled policy).displaced p).write (artifactOf p.algorithm)).clear
      (artifactOf p.algorithm) = settled none := by
  rw [clear_write]
  rcases displaced_settled policy p with h | h
  · rw [h, clear_settled_none]
  · rw [h, clear_disarm_settled]

/-- Fresh state and arming settle the flow on the new policy. -/
theorem restore_displaced (policy : Option LimitPolicy) (p : LimitPolicy) :
    ((settled policy).displaced p).restore p = settled (some p) := by
  rcases displaced_settled policy p with h | h
  · rw [h, restore_settled_none]
  · rw [h, restore_disarm_settled]

/-- The displaced policy is restored to the flow it was taken from. -/
theorem restore_displaced_old (old p : LimitPolicy) :
    ((settled (some old)).displaced p).restore old = settled (some old) := by
  by_cases h : old.algorithm = p.algorithm
  · have : (settled (some old)).displaced p = (settled (some old)).disarm := if_neg (not_not.mpr h)
    rw [this, restore_disarm_settled]
  · have : (settled (some old)).displaced p = settled none :=
      (if_pos h).trans (clear_disarm_settled old)
    rw [this, restore_settled_none]

end FlowShape

/-- From a bare flow the displaced policy comes back. -/
theorem InstallRecord.undo_of_bare {rec : InstallRecord} {f' : FlowShape}
    (h : rec.oldDisarmed = rec.old.isSome)
    (bare : rec.undoWrite (if rec.armed then f'.disarm else f') = .settled none) :
    rec.undo f' = .settled rec.old := by
  unfold undo undoDisplace
  rw [bare]
  cases hold : rec.old with
  | none => rfl
  | some old =>
    rw [hold] at h
    simp only [h, Option.isSome_some, if_true, FlowShape.restore_settled_none]

theorem InstallStage.undo_eq {key : LimitKey} {p : LimitPolicy} {f f' : FlowShape}
    {rec : InstallRecord} (hf : f.Settled) (stage : InstallStage key p f rec f') :
    rec.undo f' = f := by
  cases stage with
  | started =>
    unfold InstallRecord.undo InstallRecord.undoDisplace InstallRecord.undoWrite
    cases f.policy <;> rfl
  | disarmed old displaces =>
    have hf : f = .settled (some old) := by rw [hf, displaces]
    subst hf
    exact FlowShape.restore_disarm_settled old
  | displaced old displaces =>
    have hf : f = .settled (some old) := by rw [hf, displaces]
    subst hf
    exact FlowShape.restore_displaced_old old p
  | written =>
    have bare := FlowShape.clear_write_displaced f.policy p
    rw [← hf] at bare
    refine (InstallRecord.undo_of_bare rfl ?_).trans hf.symm
    exact bare
  | armed =>
    have bare := FlowShape.clear_write_displaced f.policy p
    rw [← hf] at bare
    have unarmed : ((f.displaced p).write (artifactOf p.algorithm)).policy = none :=
      FlowShape.displaced_policy p f
    refine (InstallRecord.undo_of_bare rfl ?_).trans hf.symm
    rw [if_pos rfl, FlowShape.disarm_arm p unarmed]
    exact bare

theorem InstallStage.settled {key : LimitKey} {p : LimitPolicy} {f f' : FlowShape}
    {rec : InstallRecord} (hf : f.Settled) (stage : InstallStage key p f rec f')
    (done : rec.armed = true) : f' = .settled (some p) := by
  cases stage with
  | started | disarmed | displaced | written => exact Bool.noConfusion done
  | armed =>
    have h := FlowShape.restore_displaced f.policy p
    rw [← hf] at h
    exact h

theorem RemoveStage.undo_eq {key : LimitKey} {old : LimitPolicy} {f f' : FlowShape}
    {rec : RemoveRecord} (hf : f.Settled) (armed : f.policy = some old)
    (stage : RemoveStage key old f rec f') : rec.undo f' = f := by
  have hf : f = .settled (some old) := by rw [hf, armed]
  subst hf
  cases stage with
  | started => rfl
  | disarmed => exact FlowShape.restore_disarm_settled old
  | cleared =>
    rw [FlowShape.clear_disarm_settled]
    exact FlowShape.restore_settled_none old

/-! ### What the journal undoes at any point of a transaction -/

section Undo

variable {ρ : Type} {key : ρ → LimitKey} {g : ρ → FlowShape → FlowShape}

theorem undoAll_onFlow_whitelisted (recs : List ρ) (σ : Shape) :
    (undoAll (fun rec => Shape.onFlow (key rec) (g rec)) recs σ).whitelisted = σ.whitelisted := by
  induction recs generalizing σ with
  | nil => rfl
  | cons rec recs ih => exact ih _

theorem undoAll_onFlow_flow (recs : List ρ) {σ σ' : Shape} (h : σ.flow = σ'.flow) :
    (undoAll (fun rec => Shape.onFlow (key rec) (g rec)) recs σ).flow =
      (undoAll (fun rec => Shape.onFlow (key rec) (g rec)) recs σ').flow := by
  induction recs generalizing σ σ' with
  | nil => exact h
  | cons rec recs ih =>
    refine ih ?_
    simp only [Shape.onFlow, h]

theorem undoAll_setPrefix_flow (listed : Bool) (cs : List Cidr) (σ : Shape) :
    (undoAll (Shape.setPrefix · listed) cs σ).flow = σ.flow := by
  induction cs generalizing σ with
  | nil => rfl
  | cons c cs ih => exact ih _

theorem undoAll_setPrefix_whitelisted (listed : Bool) (cs : List Cidr) (σ : Shape) (c : Cidr) :
    (undoAll (Shape.setPrefix · listed) cs σ).whitelisted c =
      if c ∈ cs then listed else σ.whitelisted c := by
  induction cs generalizing σ with
  | nil => rfl
  | cons c' cs ih =>
    refine (ih _).trans ?_
    by_cases hc : c ∈ cs
    · simp [hc]
    · by_cases hc' : c = c'
      · simp [hc', Shape.setPrefix]
      · simp [hc, hc', Shape.setPrefix]

end Undo

/-- Taking back what the journal holds leads from `σ` to `σ₀`. -/
structure TakesBack (σ₀ : Shape) (journal : TxJournal) (σ : Shape) : Prop where
  flows : (journal.undoRemoves (journal.undoInstalls σ)).flow = σ₀.flow
  whitelisted : ∀ c, (if c ∈ journal.wlAdded then false else
    if c ∈ journal.wlRemoved then true else σ.whitelisted c) = σ₀.whitelisted c

namespace TakesBack

variable {σ₀ σ σ' : Shape} {journal : TxJournal}

theorem undo_eq (h : TakesBack σ₀ journal σ) : journal.undo σ = σ₀ := by
  refine Shape.ext ?_ (funext ?_)
  · rw [TxJournal.undo, TxJournal.undoWlAdded, undoAll_setPrefix_flow, TxJournal.undoWlRemoved,
      undoAll_setPrefix_flow]
    exact h.flows
  · intro c
    rw [← h.whitelisted c, TxJournal.undo, TxJournal.undoWlAdded, undoAll_setPrefix_whitelisted,
      TxJournal.undoWlRemoved, undoAll_setPrefix_whitelisted, TxJournal.undoRemoves,
      undoAll_onFlow_whitelisted, TxJournal.undoInstalls, undoAll_onFlow_whitelisted]

theorem empty (σ : Shape) : TakesBack σ {} σ := ⟨rfl, fun _ => rfl⟩

/-- A prefix that was not listed before is. -/
theorem wlAdded {c : Cidr} (h : TakesBack σ₀ journal σ) (fresh : σ₀.whitelisted c = false) :
    TakesBack σ₀ { journal with wlAdded := c :: journal.wlAdded } (σ.setPrefix c true) := by
  refine ⟨?_, ?_⟩
  · refine Eq.trans ?_ h.flows
    exact undoAll_onFlow_flow _ (undoAll_onFlow_flow _ rfl)
  · intro x
    by_cases hx : x = c
    · simp [hx, fresh]
    · simpa [hx, Shape.setPrefix] using h.whitelisted x

/-- A prefix that was listed before is not. -/
theorem wlRemoved {c : Cidr} (h : TakesBack σ₀ journal σ) (listed : σ₀.whitelisted c = true) :
    TakesBack σ₀ { journal with wlRemoved := c :: journal.wlRemoved } (σ.setPrefix c false) := by
  refine ⟨?_, ?_⟩
  · refine Eq.trans ?_ h.flows
    exact undoAll_onFlow_flow _ (undoAll_onFlow_flow _ rfl)
  · intro x
    have hx := h.whitelisted x
    by_cases hxc : x = c
    · subst hxc
      by_cases hadded : x ∈ journal.wlAdded
      · simpa [hadded] using hx
      · simp [hadded, listed]
    · simpa [hxc, Shape.setPrefix] using hx

/-- The newest install is undone first. -/
theorem install {key : LimitKey} {rec : InstallRecord} {f' : FlowShape}
    (h : TakesBack σ₀ journal σ) (hkey : rec.key = key) (undone : rec.undo f' = σ.flow key) :
    TakesBack σ₀ (journal.pushInstall rec) (σ.onFlow key fun _ => f') := by
  subst hkey
  refine ⟨?_, h.whitelisted⟩
  have back : (σ.onFlow rec.key fun _ => f').onFlow rec.key rec.undo = σ := by
    rw [Shape.onFlow_onFlow]
    exact Shape.onFlow_eq_self undone
  have := h.flows
  rw [← back] at this
  exact this

/-- The newest remove is undone first, while nothing is installed. -/
theorem remove {key : LimitKey} {rec : RemoveRecord} {f' : FlowShape}
    (h : TakesBack σ₀ journal σ) (first : journal.installs = []) (hkey : rec.key = key)
    (undone : rec.undo f' = σ.flow key) :
    TakesBack σ₀ (journal.pushRemove rec) (σ.onFlow key fun _ => f') := by
  subst hkey
  refine ⟨?_, h.whitelisted⟩
  have back : (σ.onFlow rec.key fun _ => f').onFlow rec.key rec.undo = σ := by
    rw [Shape.onFlow_onFlow]
    exact Shape.onFlow_eq_self undone
  have := h.flows
  rw [TxJournal.undoInstalls, first, ← back] at this
  rw [TxJournal.undoInstalls, TxJournal.pushRemove, first]
  exact this

end TakesBack

/-- What an action does when all of it succeeds. -/
def Shape.carryOut (σ : Shape) (action : LimitAction) : Shape :=
  σ.onFlow action.key fun _ => .settled action.policy

theorem Shape.Settled.carryOut {σ : Shape} (hσ : σ.Settled) (action : LimitAction) :
    (σ.carryOut action).Settled := by
  intro k
  by_cases h : k = action.key
  · subst h
    simp [Shape.carryOut, FlowShape.settled_settled]
  · simpa [Shape.carryOut, h] using hσ k

theorem Shape.Settled.foldl_carryOut {σ : Shape} (hσ : σ.Settled) (actions : List LimitAction) :
    (actions.foldl Shape.carryOut σ).Settled := by
  induction actions generalizing σ with
  | nil => exact hσ
  | cons action actions ih => exact ih (hσ.carryOut action)

/-- An install that succeeds settles the flow on the new policy. -/
theorem InstallEnd.settles {key : LimitKey} {p : LimitPolicy} {journal journal' : TxJournal}
    {σ σ' : Shape} {r : Except AnyError Unit} (hσ : σ.Settled)
    (hend : InstallEnd key p journal σ r journal' σ') (ok : r.isOk) :
    σ' = σ.onFlow key fun _ => .settled (some p) := by
  rcases hend with ⟨hr, -, -⟩ | ⟨rec, f', stage, hr, -, rfl⟩
  · exact absurd ok (by simp [hr])
  · rw [stage.settled (hσ key) (hr ▸ ok)]

/-- A remove that succeeds leaves nothing of the flow. -/
theorem RemoveEnd.settles {key : LimitKey} {journal journal' : TxJournal} {σ σ' : Shape}
    {r : Except AnyError Unit} (hσ : σ.Settled) (hend : RemoveEnd key journal σ r journal' σ')
    (ok : r.isOk) : σ' = σ.onFlow key fun _ => .settled none := by
  rcases hend with ⟨hnone, -, rfl⟩ | ⟨old, rec, f', armed, stage, hf', -, rfl⟩
  · have := hσ key
    rw [FlowShape.Settled, hnone ok] at this
    exact (Shape.onFlow_eq_self this.symm).symm
  · have hf : σ.flow key = .settled (some old) := by rw [hσ key, armed]
    rw [hf' ok, hf, FlowShape.clear_disarm_settled]

theorem RemoveEnd.installs_eq {key : LimitKey} {journal journal' : TxJournal} {σ σ' : Shape}
    {r : Except AnyError Unit} (hend : RemoveEnd key journal σ r journal' σ') :
    journal'.installs = journal.installs := by
  rcases hend with ⟨-, rfl, -⟩ | ⟨old, rec, f', -, -, -, rfl, -⟩ <;> rfl

/-- An install on settled flows can be taken back, however it ends. -/
theorem InstallEnd.takesBack {key : LimitKey} {p : LimitPolicy} {journal journal' : TxJournal}
    {σ₀ σ σ' : Shape} {r : Except AnyError Unit} (hσ : σ.Settled) (h : TakesBack σ₀ journal σ)
    (hend : InstallEnd key p journal σ r journal' σ') : TakesBack σ₀ journal' σ' := by
  rcases hend with ⟨-, rfl, rfl⟩ | ⟨rec, f', stage, -, rfl, rfl⟩
  · exact h
  · exact h.install stage.key_eq (stage.undo_eq (hσ key))

/-- So can a remove, while nothing is installed. -/
theorem RemoveEnd.takesBack {key : LimitKey} {journal journal' : TxJournal} {σ₀ σ σ' : Shape}
    {r : Except AnyError Unit} (hσ : σ.Settled) (h : TakesBack σ₀ journal σ)
    (first : journal.installs = []) (hend : RemoveEnd key journal σ r journal' σ') :
    TakesBack σ₀ journal' σ' := by
  rcases hend with ⟨-, rfl, rfl⟩ | ⟨old, rec, f', armed, stage, -, rfl, rfl⟩
  · exact h
  · exact h.remove first stage.key_eq (stage.undo_eq (hσ key) armed)

theorem removePass_takesBack {σ₀ : Shape} (actions : List LimitAction) (journal : TxJournal)
    (σ : Shape) (hσ : σ.Settled) (h : TakesBack σ₀ journal σ) (first : journal.installs = []) :
    Tx.wp Shape.exec AnyOp (removePass actions)
      (fun r journal σ' => TakesBack σ₀ journal σ' ∧
        (r.isOk → σ' = (actions.filter LimitAction.isRemove).foldl Shape.carryOut σ)) journal
      σ := by
  induction actions generalizing journal σ with
  | nil => exact ⟨h, fun _ => rfl⟩
  | cons action actions ih =>
    cases action with
    | install => exact ih journal σ hσ h first
    | remove ipv4 direction =>
      have one := Tx.wp_weaken (wp_removeLimit ⟨ipv4, direction⟩ journal σ)
        fun _ _ _ => (trivial : AnyOp _ _)
      rw [removePass, Tx.wp_bind, Tx.wp_context]
      apply Tx.wp_mono one
      intro r journal' σ' hend
      have back := hend.takesBack hσ h first
      cases r with
      | error e => exact ⟨back, Tx.not_ok⟩
      | ok _ =>
        have hσ' : σ' = σ.carryOut (.remove ipv4 direction) := hend.settles hσ rfl
        have settled : σ'.Settled := hσ' ▸ hσ.carryOut _
        have rest := ih journal' σ' settled back (hend.installs_eq.trans first)
        rw [hσ'] at rest ⊢
        exact rest

theorem installPass_takesBack {σ₀ : Shape} (actions : List LimitAction) (journal : TxJournal)
    (σ : Shape) (hσ : σ.Settled) (h : TakesBack σ₀ journal σ) :
    Tx.wp Shape.exec AnyOp (installPass actions)
      (fun r journal σ' => TakesBack σ₀ journal σ' ∧
        (r.isOk → σ' = (actions.filter (!LimitAction.isRemove ·)).foldl Shape.carryOut σ))
      journal σ := by
  induction actions generalizing journal σ with
  | nil => exact ⟨h, fun _ => rfl⟩
  | cons action actions ih =>
    cases action with
    | remove => exact ih journal σ hσ h
    | install ipv4 direction rateBps burstBytes algorithm windowNs =>
      have one := Tx.wp_weaken (wp_installLimit ⟨ipv4, direction⟩
        { enabled := 1, algorithm, rateBps, burstBytes, windowNs } journal σ)
        fun _ _ _ => (trivial : AnyOp _ _)
      rw [installPass, Tx.wp_bind, Tx.wp_context]
      apply Tx.wp_mono one
      intro r journal' σ' hend
      have back := hend.takesBack hσ h
      cases r with
      | error e => exact ⟨back, Tx.not_ok⟩
      | ok _ =>
        have hσ' : σ' =
            σ.carryOut (.install ipv4 direction rateBps burstBytes algorithm windowNs) :=
          hend.settles hσ rfl
        have settled : σ'.Settled := hσ' ▸ hσ.carryOut _
        have rest := ih journal' σ' settled back
        rw [hσ'] at rest ⊢
        exact rest

/-- What a list of actions does when all of it succeeds: removes first. -/
def Shape.carryOutAll (actions : List LimitAction) (σ : Shape) : Shape :=
  (actions.filter LimitAction.isRemove ++ actions.filter (!LimitAction.isRemove ·)).foldl
    Shape.carryOut σ

theorem runLimitActions_takesBack {σ₀ σ : Shape} {journal : TxJournal}
    (actions : List LimitAction) (hσ : σ.Settled) (h : TakesBack σ₀ journal σ)
    (first : journal.installs = []) :
    Tx.wp Shape.exec AnyOp (runLimitActions actions)
      (fun r journal σ' => TakesBack σ₀ journal σ' ∧ (r.isOk → σ' = σ.carryOutAll actions))
      journal σ := by
  rw [runLimitActions, Tx.wp_bind]
  refine Tx.wp_mono (removePass_takesBack actions journal σ hσ h first) ?_
  intro r journal' σ' given
  obtain ⟨back, hdone⟩ := given
  cases r with
  | error e => exact ⟨back, nofun⟩
  | ok _ =>
    have settled : σ'.Settled := hdone rfl ▸ hσ.foldl_carryOut _
    refine Tx.wp_mono (installPass_takesBack actions journal' σ' settled back) ?_
    intro r journal'' σ'' given
    obtain ⟨back', hdone'⟩ := given
    refine ⟨back', ?_⟩
    intro hr
    rw [hdone' hr, hdone rfl, Shape.carryOutAll, List.foldl_append]

theorem applyWhitelistAdditions_takesBack {σ₀ : Shape} (cs : List Cidr) (journal : TxJournal)
    (σ : Shape) (fresh : ∀ c ∈ cs, σ₀.whitelisted c = false) (h : TakesBack σ₀ journal σ) :
    Tx.wp Shape.exec AnyOp (applyWhitelistAdditions cs)
      (fun _ journal' σ' => TakesBack σ₀ journal' σ' ∧
        journal'.installs = journal.installs ∧ σ'.flow = σ.flow) journal σ := by
  induction cs generalizing journal σ with
  | nil => exact ⟨h, rfl, rfl⟩
  | cons c cs ih =>
    obtain ⟨new, fresh⟩ := List.forall_mem_cons.mp fresh
    rw [applyWhitelistAdditions, Tx.wp_perform_bind]
    refine ⟨trivial, ?_, fun e => ⟨h, rfl, rfl⟩⟩
    rw [Tx.wp_journaled_bind]
    exact ih _ _ fresh (h.wlAdded new)

theorem applyWhitelistRemovals_takesBack {σ₀ : Shape} (cs : List Cidr) (journal : TxJournal)
    (σ : Shape) (listed : ∀ c ∈ cs, σ₀.whitelisted c = true) (h : TakesBack σ₀ journal σ) :
    Tx.wp Shape.exec AnyOp (applyWhitelistRemovals cs)
      (fun _ journal' σ' => TakesBack σ₀ journal' σ' ∧ σ'.flow = σ.flow) journal σ := by
  induction cs generalizing journal σ with
  | nil => exact ⟨h, rfl⟩
  | cons c cs ih =>
    obtain ⟨old, listed⟩ := List.forall_mem_cons.mp listed
    rw [applyWhitelistRemovals, Tx.wp_perform_bind]
    refine ⟨trivial, ?_, fun e => ⟨h, rfl⟩⟩
    rw [Tx.wp_journaled_bind]
    exact ih _ _ listed (h.wlRemoved old)

theorem Shape.foldl_carryOut_flow (actions : List LimitAction) {σ σ' : Shape}
    (h : σ.flow = σ'.flow) :
    (actions.foldl Shape.carryOut σ).flow = (actions.foldl Shape.carryOut σ').flow := by
  induction actions generalizing σ σ' with
  | nil => exact h
  | cons action actions ih =>
    refine ih ?_
    simp only [Shape.carryOut, Shape.onFlow, h]

/-- The trie holds the old prefixes and none of those a reload adds. -/
structure Shape.Lists (σ : Shape) (oldPrefixes newPrefixes : List Cidr) : Prop where
  old : ∀ c ∈ oldPrefixes, σ.whitelisted c = true
  added : ∀ c ∈ newPrefixes, c ∉ oldPrefixes → σ.whitelisted c = false

/-- At whatever point a reload transaction ends, its journal takes it back; one that
succeeds has carried out all its actions. -/
theorem applyReloadSteps_takesBack {σ : Shape} (actions : List LimitAction)
    (oldPrefixes newPrefixes : List Cidr) (hσ : σ.Settled)
    (lists : σ.Lists oldPrefixes newPrefixes) :
    Tx.wp Shape.exec AnyOp (applyReloadSteps actions oldPrefixes newPrefixes)
      (fun r journal σ' => TakesBack σ journal σ' ∧
        (r.isOk → σ'.flow = (σ.carryOutAll actions).flow)) {} σ := by
  have additions := applyWhitelistAdditions_takesBack (newPrefixes.filter (· ∉ oldPrefixes)) {} σ
    (fun c hc => lists.added c (List.mem_filter.mp hc).1 (by simpa using (List.mem_filter.mp hc).2))
    (.empty σ)
  rw [applyReloadSteps, Tx.wp_bind, Tx.wp_context]
  refine Tx.wp_mono additions ?_
  intro r journal₁ σ₁ h
  obtain ⟨back₁, first, flow₁⟩ := h
  cases r with
  | error e => exact ⟨back₁, nofun⟩
  | ok _ =>
    have hσ₁ : σ₁.Settled := fun k => flow₁ ▸ hσ k
    change Tx.wp _ _ (runLimitActions actions >>= _) _ _ _
    rw [Tx.wp_bind]
    refine Tx.wp_mono (runLimitActions_takesBack actions hσ₁ back₁ first) ?_
    intro r journal₂ σ₂ h
    obtain ⟨back₂, hdone⟩ := h
    cases r with
    | error e => exact ⟨back₂, nofun⟩
    | ok _ =>
      change Tx.wp _ _ (Tx.context _ _) _ _ _
      rw [Tx.wp_context]
      refine Tx.wp_mono (applyWhitelistRemovals_takesBack _ _ _
        (fun c hc => lists.old c (List.mem_filter.mp hc).1) back₂) ?_
      intro r journal₃ σ₃ h
      obtain ⟨back₃, flow₃⟩ := h
      refine ⟨back₃, ?_⟩
      intro _
      rw [flow₃, hdone rfl]
      exact Shape.foldl_carryOut_flow _ flow₁

/-- A clean rollback restores the maps, the report names every rollback operation that
failed, and a reload that succeeds leaves no orphan behind. -/
theorem clean_rollback_restores (actions : List LimitAction) (oldPrefixes newPrefixes : List Cidr)
    (d d₁ : Dataplane) (hard : d.Hard) (noOrphans : d.NoOrphans)
    (listed : ∀ c ∈ oldPrefixes, d.monitoredIps c = true)
    (added : ∀ c ∈ newPrefixes, c ∉ oldPrefixes → d.monitoredIps c = false)
    (evs : List (Event MapOp AnyError Dataplane)) (r : Except AnyError Unit) (journal : TxJournal)
    (forward : Runs MapOp.exec (applyReloadSteps actions oldPrefixes newPrefixes {}) d evs
      (r, journal) d₁) :
    (r.isOk → d₁.NoOrphans) ∧
      ∀ e, r = .error e → ∀ evs' report d₂,
        Runs MapOp.exec (rollbackJournal journal) d₁ evs' report d₂ →
        (report.dataplaneConsistent →
          d₂.policies = d.policies ∧ d₂.hasArtifact = d.hasArtifact ∧
            d₂.monitoredIps = d.monitoredIps) ∧
        ∀ ev ∈ evs', ev.error ≠ none →
          report.dataplaneConsistent = false ∧
            ∃ x ∈ report.failures, x.target = ev.op.target := by
  have settled : d.shape.Settled := d.shape_settled_iff.mpr ⟨hard, noOrphans⟩
  have steps := applyReloadSteps_takesBack actions oldPrefixes newPrefixes settled ⟨listed, added⟩
  obtain ⟨back, hdone⟩ := wp_sound steps (Dataplane.runs_shape forward)
  refine ⟨?_, ?_⟩
  · intro hok
    have hflow := hdone hok
    have : d₁.shape.Settled := fun k => by
      rw [hflow]
      exact settled.foldl_carryOut _ k
    exact (d₁.shape_settled_iff.mp this).2
  · rintro e rfl evs' report d₂ rollback
    obtain ⟨hconsistent, hnamed, hundone⟩ :=
      wp_sound (rollbackJournal_restores journal d₁.shape) (Dataplane.runs_shape rollback)
    refine ⟨?_, ?_⟩
    · intro h
      have hshape : d₂.shape = d.shape := (hundone h).trans back.undo_eq
      refine ⟨funext ?_, funext ?_, congrArg Shape.whitelisted hshape⟩
      · intro k
        exact congrArg (fun σ => (σ.flow k).policy) hshape
      · intro k
        exact congrArg (fun σ => (σ.flow k).artifacts) hshape
    · intro ev hev hfailed
      obtain ⟨x, hx, htarget⟩ := hnamed (ev.map Dataplane.shape) (List.mem_map_of_mem hev) hfailed
      refine ⟨?_, x, hx, htarget⟩
      rw [hconsistent]
      cases hfailures : report.failures with
      | nil => simp [hfailures] at hx
      | cons => rfl

/-- A reload whose switch to the sliding window log fails at the arming step. -/
theorem clean_rollback_restores_switch :
    let d := Dataplane.armedFlow ⟨1, dirRx⟩ ⟨1, algoGcra, 8000000, 65536, 0⟩
    let forward := exec MapOp.exec (applyReloadSteps
      [.install 1 dirRx 8000000 0 algoSlidingWindowLog 1000000000] [] [⟨32, 1⟩] {})
      (fun n => if n = 5 then some ⟨["map full"]⟩ else none) d
    let rollback := exec MapOp.exec (rollbackJournal forward.2.1.2) (fun _ => none) forward.2.2
    rollback.2.2.policies = d.policies ∧ rollback.2.2.hasArtifact = d.hasArtifact ∧
      rollback.2.2.monitoredIps = d.monitoredIps := by
  intro d forward rollback
  have h := clean_rollback_restores
    [.install 1 dirRx 8000000 0 algoSlidingWindowLog 1000000000] [] [⟨32, 1⟩] d forward.2.2
    (Dataplane.armedFlow_settled _ _).1 (Dataplane.armedFlow_settled _ _).2 nofun
    (fun _ _ _ => rfl) forward.1 forward.2.1.1 forward.2.1.2 (runs_exec _ _ _ _)
  exact (h.2 _ rfl rollback.1 rollback.2.1 rollback.2.2 (runs_exec _ _ _ _)).1 rfl

end VmWatcher

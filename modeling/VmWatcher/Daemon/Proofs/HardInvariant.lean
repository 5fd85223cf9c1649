import VmWatcher.Daemon.Proofs.Stages

/-!
# The hard invariant after every map operation

`armed policy => the algorithm's state artifact exists`, through the actions of a
transaction and through the playback of its journal, whatever operations fail.
-/

namespace VmWatcher

open OpProg

/-- The playback of the record touches an artifact only of an unarmed flow: the record
is complete, or wrote no artifact, or left the flow unarmed. -/
def InstallRecord.Restorable (rec : InstallRecord) (f : FlowShape) : Prop :=
  rec.armed = true ∨ rec.newAlgorithm = none ∨ f.policy = none

theorem InstallStage.restorable {key : LimitKey} {policy : LimitPolicy} {f f' : FlowShape}
    {rec : InstallRecord} (stage : InstallStage key policy f rec f') : rec.Restorable f' := by
  cases stage with
  | started | disarmed | displaced => exact Or.inr (Or.inl rfl)
  | written => exact Or.inr (Or.inr (FlowShape.displaced_policy policy f))
  | armed => exact Or.inl rfl

/-! ### The playback -/

theorem restorePolicy_keepsHard (key : LimitKey) (old : LimitPolicy) (rearm : String)
    (report : RollbackReport) (σ : Shape) :
    wp Shape.exec Shape.KeepsHard (restorePolicy key old rearm report) (fun _ _ _ => True) σ := by
  refine ⟨Shape.keepsHard_write, ⟨?_, trivial, fun e => trivial⟩, fun e => trivial⟩
  exact Shape.keepsHard_arm (by simp [Shape.exec])

theorem restoreDisplaced_keepsHard (rec : InstallRecord) (report : RollbackReport) (σ : Shape) :
    wp Shape.exec Shape.KeepsHard (restoreDisplaced rec report) (fun _ _ _ => True) σ := by
  unfold restoreDisplaced
  cases rec.old with
  | none => trivial
  | some old =>
    by_cases h : rec.oldDisarmed
    · simp only [h, if_true]
      exact restorePolicy_keepsHard rec.key old "re-arm old policy" report σ
    · simp only [h]
      trivial

theorem clearNewState_keepsHard (rec : InstallRecord) (report : RollbackReport) (σ : Shape)
    (h : rec.newAlgorithm = none ∨ (σ.flow rec.key).policy = none) :
    wp Shape.exec Shape.KeepsHard (clearNewState rec report) (fun _ _ _ => True) σ := by
  unfold clearNewState
  cases hnew : rec.newAlgorithm with
  | none => trivial
  | some algorithm =>
    have unarmed := h.resolve_left (by simp [hnew])
    exact ⟨Shape.keepsHard_clear unarmed, trivial, fun e => trivial⟩

theorem takeBack_keepsHard (rec : InstallRecord) (report : RollbackReport) (σ : Shape)
    (h : rec.newAlgorithm = none ∨ (σ.flow rec.key).policy = none) :
    wp Shape.exec Shape.KeepsHard (takeBack rec report) (fun _ _ _ => True) σ := by
  refine wp_takeBack (wp_mono (clearNewState_keepsHard rec report σ h) fun _ r σ _ => ?_)
  exact restoreDisplaced_keepsHard rec r.1 σ

theorem rollbackInstall_keepsHard (rec : InstallRecord) (report : RollbackReport) (σ : Shape)
    (h : rec.Restorable (σ.flow rec.key)) :
    wp Shape.exec Shape.KeepsHard (rollbackInstall rec report) (fun _ _ _ => True) σ := by
  by_cases armed : rec.armed = true
  · rw [rollbackInstall_armed armed]
    refine ⟨Shape.keepsHard_disarm, ?_, fun e => trivial⟩
    exact takeBack_keepsHard rec _ _ (Or.inr (by simp [Shape.exec]))
  · rw [rollbackInstall_unarmed armed]
    exact takeBack_keepsHard rec _ σ (h.resolve_left armed)

theorem rollbackRemove_keepsHard (rec : RemoveRecord) (report : RollbackReport) (σ : Shape) :
    wp Shape.exec Shape.KeepsHard (rollbackRemove rec report) (fun _ _ _ => True) σ := by
  unfold rollbackRemove
  by_cases h : rec.disarmed = true
  · simp only [h, if_true]
    rw [wp_bind]
    exact wp_mono (restorePolicy_keepsHard rec.key rec.old "re-arm removed policy" _ σ)
      fun _ _ _ _ => trivial
  · simp only [h]
    trivial

/-- What the playback of one record keeps the playback of all of them keeps. -/
theorem playBack_wp {ok : MapOp → Shape → Prop} {ρ : Type}
    {rollback : ρ → RollbackReport → Prog RollbackReport} (recs : List ρ)
    (report : RollbackReport) (σ : Shape)
    (h : ∀ rec ∈ recs, ∀ report σ,
      wp Shape.exec ok (rollback rec report) (fun _ _ _ => True) σ) :
    wp Shape.exec ok (playBack rollback recs report) (fun _ _ _ => True) σ := by
  induction recs generalizing report σ with
  | nil => trivial
  | cons rec recs ih =>
    obtain ⟨first, rest⟩ := List.forall_mem_cons.mp h
    rw [playBack, wp_bind]
    apply wp_mono (first report σ)
    intro _ report σ _
    exact ih report σ rest

/-- A journal whose playback keeps the hard invariant: only the newest install may be
incomplete, and then it can be taken back from the flow as it stands. -/
def TxJournal.Safe (journal : TxJournal) (σ : Shape) : Prop :=
  match journal.installs with
  | [] => True
  | rec :: recs => rec.Restorable (σ.flow rec.key) ∧ ∀ r ∈ recs, r.armed = true

theorem rollbackJournal_keepsHard (journal : TxJournal) (σ : Shape) (h : journal.Safe σ) :
    wp Shape.exec Shape.KeepsHard (rollbackJournal journal) (fun _ _ _ => True) σ := by
  have installs : ∀ report, wp Shape.exec Shape.KeepsHard
      (playBack rollbackInstall journal.installs report) (fun _ _ _ => True) σ := by
    unfold TxJournal.Safe at h
    cases hrecs : journal.installs with
    | nil => exact fun _ => trivial
    | cons rec recs =>
      rw [hrecs] at h
      intro report
      rw [playBack, wp_bind]
      refine wp_mono (rollbackInstall_keepsHard rec report σ h.1) fun _ report σ _ => ?_
      exact playBack_wp recs report σ fun r hr report σ =>
        rollbackInstall_keepsHard r report σ (Or.inl (h.2 r hr))
  unfold rollbackJournal
  rw [wp_bind]
  refine wp_mono (installs {}) fun _ report σ _ => ?_
  rw [wp_bind]
  refine wp_mono (playBack_wp journal.removes report σ fun rec _ =>
    rollbackRemove_keepsHard rec) fun _ report σ _ => ?_
  rw [wp_bind]
  refine wp_mono (playBack_wp journal.wlRemoved report σ fun rec _ report σ =>
    ⟨Shape.keepsHard_wlInsert, trivial, fun e => trivial⟩) fun _ report σ _ => ?_
  rw [wp_bind]
  exact wp_mono (playBack_wp journal.wlAdded report σ fun rec _ report σ =>
    ⟨Shape.keepsHard_wlRemove, trivial, fun e => trivial⟩) fun _ report σ _ => trivial

/-! ### The actions -/

/-- Every journaled install is complete. -/
def TxJournal.Complete (journal : TxJournal) : Prop := ∀ rec ∈ journal.installs, rec.armed = true

theorem TxJournal.Complete.safe {journal : TxJournal} (h : journal.Complete) (σ : Shape) :
    journal.Safe σ := by
  unfold Safe
  cases hrecs : journal.installs with
  | nil => trivial
  | cons rec recs =>
    rw [Complete, hrecs] at h
    exact ⟨Or.inl (h rec (by simp)), fun r hr => h r (List.mem_cons_of_mem _ hr)⟩

theorem removePass_keepsHard (actions : List LimitAction) (journal : TxJournal) (σ : Shape)
    (h : journal.Complete) :
    Tx.wp Shape.exec Shape.KeepsHard (removePass actions)
      (fun _ journal _ => journal.Complete) journal σ := by
  induction actions generalizing journal σ with
  | nil => exact h
  | cons action actions ih =>
    cases action with
    | install => exact ih journal σ h
    | remove ipv4 direction =>
      have complete : ∀ r journal' σ', RemoveEnd ⟨ipv4, direction⟩ journal σ r journal' σ' →
          journal'.Complete := by
        intro r journal' σ' hend
        rcases hend with ⟨-, rfl, -⟩ | ⟨old, rec, f', -, -, -, rfl, -⟩
        · exact h
        · exact h
      have first := Tx.wp_weaken (wp_removeLimit ⟨ipv4, direction⟩ journal σ) fun _ _ hop => hop.1
      rw [removePass, Tx.wp_bind, Tx.wp_context]
      apply Tx.wp_mono first
      intro r journal' σ' hend
      cases r with
      | error e => exact complete _ _ _ hend
      | ok _ => exact ih journal' σ' (complete _ _ _ hend)

theorem installPass_keepsHard (actions : List LimitAction) (journal : TxJournal) (σ : Shape)
    (h : journal.Complete) :
    Tx.wp Shape.exec Shape.KeepsHard (installPass actions)
      (fun _ journal σ => journal.Safe σ) journal σ := by
  induction actions generalizing journal σ with
  | nil => exact h.safe σ
  | cons action actions ih =>
    cases action with
    | remove => exact ih journal σ h
    | install ipv4 direction rateBps burstBytes algorithm windowNs =>
      have first := Tx.wp_weaken (wp_installLimit ⟨ipv4, direction⟩
        { enabled := 1, algorithm, rateBps, burstBytes, windowNs } journal σ) fun _ _ hop => hop.1
      rw [installPass, Tx.wp_bind, Tx.wp_context]
      apply Tx.wp_mono first
      intro r journal' σ' hend
      rcases hend with ⟨hr, rfl, rfl⟩ | ⟨rec, f', stage, hr, rfl, rfl⟩
      · cases r with
        | error e => exact h.safe _
        | ok _ => exact Bool.noConfusion hr
      · cases r with
        | error e =>
          refine ⟨?_, h⟩
          rw [stage.key_eq, Shape.onFlow_flow_self]
          exact stage.restorable
        | ok _ =>
          apply ih
          intro r hmem
          rcases List.mem_cons.mp hmem with rfl | hmem
          · exact hr.symm
          · exact h r hmem

theorem runLimitActions_keepsHard (actions : List LimitAction) (σ : Shape) :
    Tx.wp Shape.exec Shape.KeepsHard (runLimitActions actions)
      (fun _ journal σ => journal.Safe σ) {} σ := by
  rw [runLimitActions, Tx.wp_bind]
  refine Tx.wp_mono (removePass_keepsHard actions {} σ (by simp [TxJournal.Complete])) ?_
  intro r journal σ h
  cases r with
  | error e => exact h.safe σ
  | ok _ => exact installPass_keepsHard actions journal σ h

theorem transact_keepsHard {tx : Tx Unit} {σ : Shape}
    (h : Tx.wp Shape.exec Shape.KeepsHard tx (fun _ journal σ => journal.Safe σ) {} σ) :
    wp Shape.exec Shape.KeepsHard (transact tx) (fun _ _ _ => True) σ := by
  unfold transact
  rw [wp_bind]
  refine wp_mono h ?_
  rintro - ⟨r, journal⟩ σ safe
  cases r with
  | ok _ => trivial
  | error e =>
    rw [wp_bind]
    exact wp_mono (rollbackJournal_keepsHard journal σ safe) fun _ _ _ _ => trivial

/-- The hard invariant holds after every single map operation of every transaction of
limit actions, in the forward phase and in the rollback alike, whatever operations
fail. -/
theorem limit_actions_keep_hard_invariant (actions : List LimitAction) (d d' : Dataplane)
    (hard : d.Hard) (evs : List (Event MapOp AnyError Dataplane))
    (r : Except (AnyError × RollbackReport) Unit)
    (run : Runs MapOp.exec (transact (runLimitActions actions)) d evs r d') :
    (∀ ev ∈ evs, ev.after.Hard) ∧ d'.Hard := by
  have keeps : ∀ op (σ : Shape), σ.Hard → Shape.KeepsHard op σ → (Shape.exec op σ).2.Hard :=
    fun _ _ hσ hop => hop hσ
  have safe := transact_keepsHard (runLimitActions_keepsHard actions d.shape)
  obtain ⟨hall, hend⟩ := wp_invariant keeps ((Dataplane.hard_iff_shape d).mp hard) safe
    (Dataplane.runs_shape run)
  refine ⟨fun ev hev => ?_, hend⟩
  exact hall (ev.map Dataplane.shape) (List.mem_map_of_mem hev)

/-- A switch from GCRA to the sliding window log whose arming fails, and whose rollback
cannot write the old state back. -/
theorem limit_actions_keep_hard_invariant_switch :
    let d := Dataplane.armedFlow ⟨1, dirRx⟩ ⟨1, algoGcra, 8000000, 65536, 0⟩
    let run := exec MapOp.exec (transact (runLimitActions
        [.install 1 dirRx 8000000 0 algoSlidingWindowLog 1000000000]))
      (fun n => if n = 4 ∨ n = 6 then some ⟨["map full"]⟩ else none) d
    (∀ ev ∈ run.1, ev.after.Hard) ∧ run.2.2.Hard :=
  limit_actions_keep_hard_invariant _ _ _ (Dataplane.armedFlow_settled _ _).1 _ _
    (runs_exec _ _ _ _)

end VmWatcher

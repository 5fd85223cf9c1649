import VmWatcher.Daemon.Capacity
import VmWatcher.Daemon.Proofs.Frame

/-!
# A rollback never runs out of space

Each journal record is taken back before the records that came before it, so the maps
pass through the same contents as on the way there, and those did fit
(`Undoes`). An insert whose outcome fits has fitted.
-/

namespace VmWatcher

open OpProg

/-! ### The playback fits where its outcomes do -/

/-- Taking the records back, newest first, leads only to states with the property. -/
def Undoes (ok : Shape → Prop) {ρ : Type} (undo : ρ → Shape → Shape) : List ρ → Shape → Prop
  | [], _ => True
  | rec :: recs, σ => ok (undo rec σ) ∧ Undoes ok undo recs (undo rec σ)

theorem Undoes.cons {ok : Shape → Prop} {ρ : Type} {undo : ρ → Shape → Shape} {rec : ρ}
    {recs : List ρ} {σ σ' : Shape} (back : undo rec σ' = σ) (now : ok σ)
    (rest : Undoes ok undo recs σ) : Undoes ok undo (rec :: recs) σ' := by
  subst back
  exact ⟨now, rest⟩

/-- The playback reports nothing new and did what `undo` says. -/
def Silent (undo : Shape → Shape) (report : RollbackReport) (σ : Shape)
    (report' : RollbackReport) (σ' : Shape) : Prop :=
  report'.failures = report.failures ∧ σ' = undo σ

section Playback

variable {cap : Capacity} {σ : Shape}

theorem restorePolicy_silent {key : LimitKey} {old : LimitPolicy} (rearm : String)
    (report : RollbackReport) (h : cap.HoldsFlows (σ.onFlow key (.restore old))) :
    wpUnder Shape.exec cap.Decides (restorePolicy key old rearm report)
      (fun r σ' => Silent (Shape.onFlow key (.restore old)) report σ r.1 σ') σ := by
  have split : σ.onFlow key (.restore old) =
      (σ.onFlow key (.write (artifactOf old.algorithm))).onFlow key (.arm old) := by
    rw [Shape.onFlow_onFlow]
    rfl
  rw [split] at h
  have write : cap.Fits (.writeFreshState key old.algorithm) σ := by
    refine Capacity.fits_write ?_
    have := h.holding (artifactOf old.algorithm)
    rwa [Shape.holding_of_artifacts (FlowShape.arm_artifacts old)] at this
  refine wpUnder_call_of_only (Capacity.Decides.succeeds write) ?_
  refine wpUnder_call_of_only (Capacity.Decides.succeeds (Capacity.fits_arm h.armed)) ?_
  exact ⟨rfl, split.symm⟩

theorem clearNewState_silent (rec : InstallRecord) (report : RollbackReport) :
    wpUnder Shape.exec cap.Decides (clearNewState rec report)
      (fun r σ' => Silent (Shape.onFlow rec.key rec.undoWrite) report σ r.1 σ') σ := by
  unfold clearNewState InstallRecord.undoWrite
  cases rec.newAlgorithm with
  | none => exact ⟨rfl, (Shape.onFlow_eq_self rfl).symm⟩
  | some algorithm =>
    exact wpUnder_call_of_only (Capacity.Decides.succeeds trivial) ⟨rfl, rfl⟩

theorem restoreDisplaced_silent (rec : InstallRecord) (report : RollbackReport)
    (h : cap.HoldsFlows (σ.onFlow rec.key rec.undoDisplace)) :
    wpUnder Shape.exec cap.Decides (restoreDisplaced rec report)
      (fun r σ' => Silent (Shape.onFlow rec.key rec.undoDisplace) report σ r.1 σ') σ := by
  unfold restoreDisplaced
  unfold InstallRecord.undoDisplace at h ⊢
  cases hold : rec.old with
  | none => exact ⟨rfl, (Shape.onFlow_eq_self rfl).symm⟩
  | some old =>
    rw [hold] at h
    by_cases hdisarmed : rec.oldDisarmed
    · simp only [hdisarmed, if_true] at h ⊢
      exact restorePolicy_silent "re-arm old policy" report h
    · simp only [hdisarmed]
      exact ⟨rfl, (Shape.onFlow_eq_self rfl).symm⟩

theorem takeBack_silent (rec : InstallRecord) (report : RollbackReport)
    (h : cap.HoldsFlows (σ.onFlow rec.key fun f => rec.undoDisplace (rec.undoWrite f))) :
    wpUnder Shape.exec cap.Decides (takeBack rec report)
      (Silent (Shape.onFlow rec.key fun f => rec.undoDisplace (rec.undoWrite f)) report σ) σ := by
  rw [← Shape.onFlow_onFlow] at h
  refine wpUnder_takeBack (wpUnder_mono (clearNewState_silent rec report) ?_)
  intro r _ given
  obtain ⟨same, rfl⟩ := given
  refine wpUnder_mono (restoreDisplaced_silent rec r.1 h) ?_
  intro r' _ given
  obtain ⟨same', rfl⟩ := given
  refine ⟨?_, Shape.onFlow_onFlow⟩
  rw [RollbackReport.failures_close, same', same]

theorem rollbackInstall_silent (rec : InstallRecord) (report : RollbackReport) (σ : Shape)
    (h : cap.HoldsFlows (σ.onFlow rec.key rec.undo)) :
    wpUnder Shape.exec cap.Decides (rollbackInstall rec report)
      (Silent (Shape.onFlow rec.key rec.undo) report σ) σ := by
  unfold InstallRecord.undo at h ⊢
  by_cases armed : rec.armed = true
  · rw [rollbackInstall_armed armed]
    simp only [armed, if_true] at h ⊢
    have split : σ.onFlow rec.key (fun f => rec.undoDisplace (rec.undoWrite f.disarm)) =
        (σ.onFlow rec.key .disarm).onFlow rec.key fun f => rec.undoDisplace (rec.undoWrite f) := by
      rw [Shape.onFlow_onFlow]
    rw [split] at h
    refine wpUnder_call_of_only (Capacity.Decides.succeeds trivial) ?_
    refine wpUnder_mono (takeBack_silent rec report.attempt h) ?_
    intro report' _ given
    obtain ⟨same, rfl⟩ := given
    exact ⟨same, Shape.onFlow_onFlow⟩
  · rw [rollbackInstall_unarmed armed]
    simp only [armed] at h ⊢
    exact takeBack_silent rec report.attempt h

theorem rollbackRemove_silent (rec : RemoveRecord) (report : RollbackReport) (σ : Shape)
    (h : cap.HoldsFlows (σ.onFlow rec.key rec.undo)) :
    wpUnder Shape.exec cap.Decides (rollbackRemove rec report)
      (Silent (Shape.onFlow rec.key rec.undo) report σ) σ := by
  unfold rollbackRemove
  unfold RemoveRecord.undo at h ⊢
  by_cases hdisarmed : rec.disarmed = true
  · simp only [hdisarmed, if_true] at h ⊢
    rw [wpUnder_bind]
    refine wpUnder_mono (restorePolicy_silent "re-arm removed policy" _ h) ?_
    intro r _ given
    obtain ⟨same, rfl⟩ := given
    refine ⟨?_, rfl⟩
    rw [RollbackReport.failures_close, same]
    rfl
  · simp only [hdisarmed]
    exact ⟨rfl, (Shape.onFlow_eq_self rfl).symm⟩

/-- The trie holds no more than its number of prefixes. -/
def Capacity.HoldsPrefixes (cap : Capacity) (σ : Shape) : Prop := σ.listed.ncard ≤ cap.prefixes

theorem rollbackWlRemoved_silent (c : Cidr) (report : RollbackReport) (σ : Shape)
    (h : cap.HoldsPrefixes (σ.setPrefix c true)) :
    wpUnder Shape.exec cap.Decides (rollbackWlRemoved c report)
      (Silent (Shape.setPrefix c true) report σ) σ :=
  wpUnder_call_of_only (Capacity.Decides.succeeds (Capacity.fits_wlInsert h)) ⟨rfl, rfl⟩

theorem rollbackWlAdded_silent (c : Cidr) (report : RollbackReport) (σ : Shape) :
    wpUnder Shape.exec cap.Decides (rollbackWlAdded c report)
      (Silent (Shape.setPrefix c false) report σ) σ :=
  wpUnder_call_of_only (Capacity.Decides.succeeds trivial) ⟨rfl, rfl⟩

theorem playBack_silent {ok : Shape → Prop} {ρ : Type}
    {rollback : ρ → RollbackReport → Prog RollbackReport} {undo : ρ → Shape → Shape}
    (one : ∀ rec report σ, ok (undo rec σ) →
      wpUnder Shape.exec cap.Decides (rollback rec report) (Silent (undo rec) report σ) σ)
    (recs : List ρ) (report : RollbackReport) (σ : Shape) (h : Undoes ok undo recs σ) :
    wpUnder Shape.exec cap.Decides (playBack rollback recs report)
      (Silent (undoAll undo recs) report σ) σ := by
  induction recs generalizing report σ with
  | nil => exact ⟨rfl, rfl⟩
  | cons rec recs ih =>
    obtain ⟨fits, rest⟩ := h
    rw [playBack, wpUnder_bind]
    refine wpUnder_mono (one rec report σ fits) ?_
    intro report' _ given
    obtain ⟨same, rfl⟩ := given
    refine wpUnder_mono (ih report' (undo rec σ) rest) ?_
    intro report'' _ given
    obtain ⟨same', rfl⟩ := given
    exact ⟨same'.trans same, rfl⟩

theorem rollbackJournal_silent (journal : TxJournal) (σ : Shape)
    (installs : Undoes cap.HoldsFlows (fun rec => Shape.onFlow rec.key rec.undo)
      journal.installs σ)
    (removes : Undoes cap.HoldsFlows (fun rec => Shape.onFlow rec.key rec.undo)
      journal.removes (journal.undoInstalls σ))
    (wlRemoved : Undoes cap.HoldsPrefixes (Shape.setPrefix · true) journal.wlRemoved
      (journal.undoRemoves (journal.undoInstalls σ))) :
    wpUnder Shape.exec cap.Decides (rollbackJournal journal)
      (fun report _ => report.failures = []) σ := by
  unfold rollbackJournal
  rw [wpUnder_bind]
  refine wpUnder_mono (playBack_silent rollbackInstall_silent journal.installs {} σ installs) ?_
  intro report₁ _ h
  obtain ⟨same₁, rfl⟩ := h
  rw [wpUnder_bind]
  refine wpUnder_mono (playBack_silent rollbackRemove_silent journal.removes report₁ _ removes) ?_
  intro report₂ _ h
  obtain ⟨same₂, rfl⟩ := h
  rw [wpUnder_bind]
  refine wpUnder_mono
    (playBack_silent rollbackWlRemoved_silent journal.wlRemoved report₂ _ wlRemoved) ?_
  intro report₃ σ₃ h
  obtain ⟨same₃, -⟩ := h
  rw [wpUnder_bind]
  have always : ∀ (recs : List Cidr) (σ : Shape),
      Undoes (fun _ => True) (Shape.setPrefix · false) recs σ := by
    intro recs
    induction recs with
    | nil => exact fun _ => trivial
    | cons c recs ih => exact fun σ => ⟨trivial, ih _⟩
  refine wpUnder_mono (playBack_silent (fun c report σ _ => rollbackWlAdded_silent c report σ)
    journal.wlAdded report₃ σ₃ (always _ _)) ?_
  intro report₄ σ₄ h
  obtain ⟨same₄, -⟩ := h
  exact same₄.trans (same₃.trans (same₂.trans same₁))

end Playback

/-! ### The way there did fit -/

section Forward

variable {cap : Capacity} {σ σ' : Shape} {journal journal' : TxJournal}

theorem Undoes.congr {ok : Shape → Prop} (okFlow : ∀ σ τ : Shape, τ.flow = σ.flow → ok σ → ok τ)
    {ρ : Type} {key : ρ → LimitKey} {g : ρ → FlowShape → FlowShape} {recs : List ρ} {σ τ : Shape}
    (h : Undoes ok (fun rec => Shape.onFlow (key rec) (g rec)) recs σ) (same : τ.flow = σ.flow) :
    Undoes ok (fun rec => Shape.onFlow (key rec) (g rec)) recs τ := by
  induction recs generalizing σ τ with
  | nil => trivial
  | cons rec recs ih =>
    have step : (τ.onFlow (key rec) (g rec)).flow = (σ.onFlow (key rec) (g rec)).flow := by
      simp only [Shape.onFlow, same]
    exact ⟨okFlow _ _ step h.1, ih h.2 step⟩

/-- The limit maps hold what they hold now, and held all that the journal leads back to. -/
structure Room (cap : Capacity) (journal : TxJournal) (σ : Shape) : Prop where
  now : cap.HoldsFlows σ
  installs : Undoes cap.HoldsFlows (fun rec => Shape.onFlow rec.key rec.undo) journal.installs σ
  removes : Undoes cap.HoldsFlows (fun rec => Shape.onFlow rec.key rec.undo) journal.removes
    (journal.undoInstalls σ)

namespace Room

theorem empty (h : cap.HoldsFlows σ) : Room cap {} σ := ⟨h, trivial, trivial⟩

/-- The whitelist is no part of it. -/
theorem congr (h : Room cap journal σ) (same : σ'.flow = σ.flow)
    (installs : journal'.installs = journal.installs)
    (removes : journal'.removes = journal.removes) : Room cap journal' σ' := by
  have okFlow : ∀ σ τ : Shape, τ.flow = σ.flow → cap.HoldsFlows σ → cap.HoldsFlows τ :=
    fun _ _ same h => h.congr same
  refine ⟨h.now.congr same, ?_, ?_⟩
  · rw [installs]
    exact h.installs.congr okFlow same
  · rw [removes, TxJournal.undoInstalls, installs]
    exact h.removes.congr okFlow (undoAll_onFlow_flow _ same)

/-- The newest install leads back to maps that hold what they held before it. -/
theorem install {key : LimitKey} {rec : InstallRecord} {f' : FlowShape} (h : Room cap journal σ)
    (now : cap.HoldsFlows (σ.onFlow key fun _ => f')) (hkey : rec.key = key)
    (undone : rec.undo f' = σ.flow key) :
    Room cap (journal.pushInstall rec) (σ.onFlow key fun _ => f') := by
  subst hkey
  have back : (σ.onFlow rec.key fun _ => f').onFlow rec.key rec.undo = σ := by
    rw [Shape.onFlow_onFlow]
    exact Shape.onFlow_eq_self undone
  have removes := h.removes
  rw [← back] at removes
  exact ⟨now, .cons back h.now h.installs, removes⟩

/-- The newest remove is taken back first, while nothing is installed. -/
theorem remove {key : LimitKey} {rec : RemoveRecord} {f' : FlowShape} (h : Room cap journal σ)
    (now : cap.HoldsFlows (σ.onFlow key fun _ => f')) (first : journal.installs = [])
    (hkey : rec.key = key) (undone : rec.undo f' = σ.flow key) :
    Room cap (journal.pushRemove rec) (σ.onFlow key fun _ => f') := by
  subst hkey
  have back : (σ.onFlow rec.key fun _ => f').onFlow rec.key rec.undo = σ := by
    rw [Shape.onFlow_onFlow]
    exact Shape.onFlow_eq_self undone
  have removes := h.removes
  rw [TxJournal.undoInstalls, first] at removes
  refine ⟨now, ?_, ?_⟩
  · rw [TxJournal.pushRemove, first]
    trivial
  · rw [TxJournal.undoInstalls, TxJournal.pushRemove, first]
    exact .cons back h.now removes

end Room

/-- How an install ends on settled flows. -/
theorem InstallEnd.room {key : LimitKey} {p : LimitPolicy} {r : Except AnyError Unit}
    (hσ : σ.Settled) (h : Room cap journal σ) (now : cap.HoldsFlows σ')
    (hend : InstallEnd key p journal σ r journal' σ') : Room cap journal' σ' := by
  rcases hend with ⟨-, rfl, rfl⟩ | ⟨rec, f', stage, -, rfl, rfl⟩
  · exact h
  · exact h.install now stage.key_eq (stage.undo_eq (hσ key))

/-- How a remove ends on settled flows. -/
theorem RemoveEnd.room {key : LimitKey} {r : Except AnyError Unit} (hσ : σ.Settled)
    (h : Room cap journal σ) (now : cap.HoldsFlows σ') (first : journal.installs = [])
    (hend : RemoveEnd key journal σ r journal' σ') : Room cap journal' σ' := by
  rcases hend with ⟨-, rfl, rfl⟩ | ⟨old, rec, f', armed, stage, -, rfl, rfl⟩
  · exact h
  · exact h.remove now first stage.key_eq (stage.undo_eq (hσ key) armed)

/-- What succeeds only where it fits leaves maps within their capacities. -/
theorem holdsFlows_under {α : Type} {may : MapOp → Option AnyError → Shape → Prop}
    (space : ∀ op σ, may op none σ → cap.Fits op σ) (tx : Tx α) (journal : TxJournal)
    (h : cap.HoldsFlows σ) :
    Tx.wpUnder Shape.exec may tx (fun _ _ σ' => cap.HoldsFlows σ') journal σ :=
  Tx.wpUnder_invariant (fun op σ hσ fits => hσ.exec (space op σ fits)) tx h

theorem removePass_room (actions : List LimitAction) (journal : TxJournal) (σ : Shape)
    (hσ : σ.Settled) (h : Room cap journal σ) (first : journal.installs = []) :
    Tx.wpUnder Shape.exec cap.Limits (removePass actions)
      (fun r journal σ' => Room cap journal σ' ∧ (r.isOk → σ'.Settled)) journal σ := by
  induction actions generalizing journal σ with
  | nil => exact ⟨h, fun _ => hσ⟩
  | cons action actions ih =>
    cases action with
    | install => exact ih journal σ hσ h first
    | remove ipv4 direction =>
      have ends := (wp_removeLimit ⟨ipv4, direction⟩ journal σ).under cap.Limits
      have holds := holdsFlows_under Capacity.Limits.space (removeLimit ⟨ipv4, direction⟩) journal
        h.now
      rw [removePass, Tx.wpUnder_bind, Tx.wpUnder_context]
      apply Tx.wpUnder_mono (Tx.wpUnder_and ends holds)
      intro r journal' σ' both
      obtain ⟨hend, now⟩ := both
      have room := hend.room hσ h now first
      cases r with
      | error e => exact ⟨room, Tx.not_ok⟩
      | ok _ =>
        have settled : σ'.Settled :=
          hend.settles hσ rfl ▸ hσ.carryOut (.remove ipv4 direction)
        exact ih journal' σ' settled room (hend.installs_eq.trans first)

theorem installPass_room (actions : List LimitAction) (journal : TxJournal) (σ : Shape)
    (hσ : σ.Settled) (h : Room cap journal σ) :
    Tx.wpUnder Shape.exec cap.Limits (installPass actions)
      (fun _ journal σ' => Room cap journal σ') journal σ := by
  induction actions generalizing journal σ with
  | nil => exact h
  | cons action actions ih =>
    cases action with
    | remove => exact ih journal σ hσ h
    | install ipv4 direction rateBps burstBytes algorithm windowNs =>
      let policy : LimitPolicy := { enabled := 1, algorithm, rateBps, burstBytes, windowNs }
      have ends := (wp_installLimit ⟨ipv4, direction⟩ policy journal σ).under cap.Limits
      have holds := holdsFlows_under Capacity.Limits.space (installLimit ⟨ipv4, direction⟩ policy)
        journal h.now
      rw [installPass, Tx.wpUnder_bind, Tx.wpUnder_context]
      apply Tx.wpUnder_mono (Tx.wpUnder_and ends holds)
      intro r journal' σ' both
      obtain ⟨hend, now⟩ := both
      have room := hend.room hσ h now
      cases r with
      | error e => exact room
      | ok _ =>
        have settled : σ'.Settled := hend.settles hσ rfl ▸
          hσ.carryOut (.install ipv4 direction rateBps burstBytes algorithm windowNs)
        exact ih journal' σ' settled room

theorem runLimitActions_room (actions : List LimitAction) {journal : TxJournal} (hσ : σ.Settled)
    (h : Room cap journal σ) (first : journal.installs = []) :
    Tx.wpUnder Shape.exec cap.Limits (runLimitActions actions)
      (fun _ journal σ' => Room cap journal σ') journal σ := by
  rw [runLimitActions, Tx.wpUnder_bind]
  refine Tx.wpUnder_mono (removePass_room actions journal σ hσ h first) ?_
  intro r journal' σ' given
  obtain ⟨room, settled⟩ := given
  cases r with
  | error e => exact room
  | ok _ => exact installPass_room actions journal' σ' (settled rfl) room

theorem applyWhitelistAdditions_room (cs : List Cidr) (journal : TxJournal) (σ : Shape)
    (h : Room cap journal σ) : Tx.wpUnder Shape.exec cap.Limits (applyWhitelistAdditions cs)
      (fun _ journal' σ' => Room cap journal' σ' ∧ journal'.installs = journal.installs ∧
        σ'.flow = σ.flow) journal σ := by
  induction cs generalizing journal σ with
  | nil => exact ⟨h, rfl, rfl⟩
  | cons c cs ih =>
    rw [applyWhitelistAdditions, Tx.wpUnder_perform_bind]
    refine ⟨fun _ => ?_, fun _ _ => ⟨h, rfl, rfl⟩⟩
    rw [Tx.wpUnder_journaled_bind]
    exact ih { journal with wlAdded := c :: journal.wlAdded } (σ.setPrefix c true)
      (h.congr rfl rfl rfl)

theorem applyWhitelistRemovals_room (cs : List Cidr) (journal : TxJournal) (σ : Shape)
    (h : Room cap journal σ) : Tx.wpUnder Shape.exec cap.Limits (applyWhitelistRemovals cs)
      (fun _ journal' σ' => Room cap journal' σ') journal σ := by
  induction cs generalizing journal σ with
  | nil => exact h
  | cons c cs ih =>
    rw [applyWhitelistRemovals, Tx.wpUnder_perform_bind]
    refine ⟨fun _ => ?_, fun _ _ => h⟩
    rw [Tx.wpUnder_journaled_bind]
    exact ih _ _ (h.congr rfl rfl rfl)

/-- At whatever point a reload transaction ends, its journal leads back through maps
that held what they had to. -/
theorem applyReloadSteps_room (actions : List LimitAction) (oldPrefixes newPrefixes : List Cidr)
    (hσ : σ.Settled) (h : cap.HoldsFlows σ) :
    Tx.wpUnder Shape.exec cap.Limits (applyReloadSteps actions oldPrefixes newPrefixes)
      (fun _ journal σ' => Room cap journal σ') {} σ := by
  rw [applyReloadSteps, Tx.wpUnder_bind, Tx.wpUnder_context]
  refine Tx.wpUnder_mono (applyWhitelistAdditions_room _ {} σ (.empty h)) ?_
  intro r journal₁ σ₁ given
  obtain ⟨room₁, first, flow₁⟩ := given
  cases r with
  | error e => exact room₁
  | ok _ =>
    have hσ₁ : σ₁.Settled := fun k => flow₁ ▸ hσ k
    change Tx.wpUnder _ _ (runLimitActions actions >>= _) _ _ _
    rw [Tx.wpUnder_bind]
    refine Tx.wpUnder_mono (runLimitActions_room actions hσ₁ room₁ first) ?_
    intro r journal₂ σ₂ room₂
    cases r with
    | error e => exact room₂
    | ok _ =>
      change Tx.wpUnder _ _ (Tx.context _ _) _ _ _
      rw [Tx.wpUnder_context]
      exact applyWhitelistRemovals_room _ journal₂ σ₂ room₂

end Forward

/-! ### The trie -/

section Trie

variable {cap : Capacity} {oldPrefixes newPrefixes : List Cidr}

/-- The prefixes of either configuration. -/
def eitherPrefixes (oldPrefixes newPrefixes : List Cidr) : Set Cidr :=
  {c | c ∈ oldPrefixes ∨ c ∈ newPrefixes}

theorem ncard_eitherPrefixes (oldPrefixes newPrefixes : List Cidr) :
    (eitherPrefixes oldPrefixes newPrefixes).ncard = whitelistPeak oldPrefixes newPrefixes := by
  have same : eitherPrefixes oldPrefixes newPrefixes =
      ↑(oldPrefixes.toFinset ∪ newPrefixes.toFinset) := by
    ext c
    simp [eitherPrefixes]
  rw [same, Set.ncard_coe_finset, whitelistPeak]

theorem undoes_reinsert {either : Set Cidr} (fits : either.ncard ≤ cap.prefixes) :
    ∀ (cs : List Cidr) (σ : Shape), σ.listed ⊆ either → (∀ c ∈ cs, c ∈ either) →
      Undoes cap.HoldsPrefixes (Shape.setPrefix · true) cs σ := by
  intro cs
  induction cs with
  | nil =>
    intros
    trivial
  | cons c cs ih =>
    intro σ hσ hcs
    obtain ⟨hc, hcs⟩ := List.forall_mem_cons.mp hcs
    have inside : (σ.setPrefix c true).listed ⊆ either := by
      rw [Shape.listed_insert]
      exact Set.insert_subset hc hσ
    exact ⟨(Set.ncard_le_ncard inside).trans fits, ih _ inside hcs⟩

/-- The prefixes a reload swaps: those that only one of the configurations has. -/
def swapped (oldPrefixes newPrefixes : List Cidr) : RollbackTarget → Prop
  | .flow _ => True
  | .pref c => ¬(c ∈ oldPrefixes ↔ c ∈ newPrefixes)

theorem applyReloadSteps_swaps (actions : List LimitAction) (σ : Shape) :
    Tx.wp Shape.exec (Touches (swapped oldPrefixes newPrefixes))
      (applyReloadSteps actions oldPrefixes newPrefixes)
      (fun _ journal _ => journal.Touches (swapped oldPrefixes newPrefixes)) {} σ := by
  refine applyReloadSteps_touches actions oldPrefixes newPrefixes σ (fun _ _ => trivial) ?_ ?_
  · intro c hnew hold both
    exact hold (both.mpr hnew)
  · intro c hold hnew both
    exact hnew (both.mp hold)

theorem mem_eitherPrefixes_of_swapped {c : Cidr} (h : swapped oldPrefixes newPrefixes (.pref c)) :
    c ∈ eitherPrefixes oldPrefixes newPrefixes := by
  by_contra hneither
  obtain ⟨hold, hnew⟩ := not_or.mp hneither
  exact h (iff_of_false hold hnew)

/-- The trie holds prefixes of the two configurations only, however far a reload gets. -/
theorem applyReloadSteps_listed {actions : List LimitAction} {σ σ' : Shape}
    (listed : ∀ c, σ.whitelisted c = true ↔ c ∈ oldPrefixes)
    {evs : List (Event MapOp AnyError Shape)} {r : Except AnyError Unit × TxJournal}
    (run : Runs Shape.exec (applyReloadSteps actions oldPrefixes newPrefixes {}) σ evs r σ') :
    σ'.listed ⊆ eitherPrefixes oldPrefixes newPrefixes := by
  intro c hc
  by_contra hneither
  have same := (Runs.frame_whitelisted (applyReloadSteps_swaps actions σ) run
    fun hswapped => hneither (mem_eitherPrefixes_of_swapped hswapped)).2
  exact hneither (Or.inl ((listed c).mp (same.symm.trans hc)))

/-- Taking back the installs and removes leaves the trie as it is. -/
theorem listed_undo_flows (journal : TxJournal) (σ : Shape) :
    (journal.undoRemoves (journal.undoInstalls σ)).listed = σ.listed := by
  ext c
  simp [Shape.listed, TxJournal.undoRemoves, TxJournal.undoInstalls, undoAll_onFlow_whitelisted]

end Trie

/-- A transaction that failed is taken back without a failure, whatever filled the maps
on the way and whatever made it fail. -/
theorem rollback_has_room (cap : Capacity) (actions : List LimitAction)
    (oldPrefixes newPrefixes : List Cidr) (d d₁ d₂ : Dataplane) (hard : d.Hard)
    (noOrphans : d.NoOrphans) (holds : cap.HoldsFlows d.shape)
    (listed : ∀ c, d.monitoredIps c = true ↔ c ∈ oldPrefixes)
    (peak : whitelistPeak oldPrefixes newPrefixes ≤ cap.prefixes)
    (evs evs' : List (Event MapOp AnyError Dataplane)) (e : AnyError) (journal : TxJournal)
    (report : RollbackReport)
    (forward : Runs MapOp.exec (applyReloadSteps actions oldPrefixes newPrefixes {}) d evs
      (.error e, journal) d₁)
    (limited : Obeys (fun op error d => cap.Limits op error d.shape) d evs)
    (playback : Runs MapOp.exec (rollbackJournal journal) d₁ evs' report d₂)
    (onlySpace : Obeys (fun op error d => cap.Decides op error d.shape) d₁ evs') :
    (∀ ev ∈ evs', ev.error = none) ∧ report.failures = [] ∧ report.dataplaneConsistent = true ∧
      d₂.policies = d.policies ∧ d₂.hasArtifact = d.hasArtifact ∧
      d₂.monitoredIps = d.monitoredIps := by
  have settled : d.shape.Settled := d.shape_settled_iff.mpr ⟨hard, noOrphans⟩
  have way := Dataplane.runs_shape forward
  have room := wpUnder_sound (applyReloadSteps_room actions oldPrefixes newPrefixes settled holds)
    way limited.map
  have swaps := wp_sound (applyReloadSteps_swaps actions d.shape) way
  have lists : d.shape.Lists oldPrefixes newPrefixes := by
    refine ⟨fun c hc => (listed c).mpr hc, fun c _ hc => ?_⟩
    exact Bool.eq_false_iff.mpr fun h => hc ((listed c).mp h)
  obtain ⟨back, -⟩ := wp_sound
    (applyReloadSteps_takesBack actions oldPrefixes newPrefixes settled lists) way
  have fits : (eitherPrefixes oldPrefixes newPrefixes).ncard ≤ cap.prefixes := by
    rwa [ncard_eitherPrefixes]
  have inside : (journal.undoRemoves (journal.undoInstalls d₁.shape)).listed ⊆
      eitherPrefixes oldPrefixes newPrefixes := by
    rw [listed_undo_flows]
    exact applyReloadSteps_listed listed way
  have removed : ∀ c ∈ journal.wlRemoved, c ∈ eitherPrefixes oldPrefixes newPrefixes :=
    fun c hc => mem_eitherPrefixes_of_swapped (swaps.wlRemoved c hc)
  have silent := rollbackJournal_silent journal d₁.shape room.installs room.removes
    (undoes_reinsert fits _ _ inside removed)
  have home := Dataplane.runs_shape playback
  have obeys : Obeys cap.Decides d₁.shape (evs'.map (Event.map Dataplane.shape)) := onlySpace.map
  have failures := wpUnder_sound silent home obeys
  obtain ⟨hconsistent, hnamed, hundone⟩ :=
    wp_sound (rollbackJournal_restores journal d₁.shape) home
  have consistent : report.dataplaneConsistent = true := by rw [hconsistent, failures]; rfl
  have hshape : d₂.shape = d.shape := (hundone consistent).trans back.undo_eq
  refine ⟨?_, failures, consistent, funext ?_, funext ?_, congrArg Shape.whitelisted hshape⟩
  · intro ev hev
    by_contra hfailed
    obtain ⟨x, hx, -⟩ := hnamed (ev.map Dataplane.shape) (List.mem_map_of_mem hev) hfailed
    rw [failures] at hx
    exact List.not_mem_nil hx
  · intro k
    exact congrArg (fun σ => (σ.flow k).policy) hshape
  · intro k
    exact congrArg (fun σ => (σ.flow k).artifacts) hshape

/-- A switch to the sliding window log that fails at the arming step, on maps with room
for one flow. -/
theorem rollback_has_room_switch :
    let d := Dataplane.armedFlow ⟨1, dirRx⟩ ⟨1, algoGcra, 8000000, 65536, 0⟩
    let forward := exec MapOp.exec (applyReloadSteps
      [.install 1 dirRx 8000000 0 algoSlidingWindowLog 1000000000] [] [] {})
      (fun n => if n = 4 then some ⟨["no memory"]⟩ else none) d
    let playback := exec MapOp.exec (rollbackJournal forward.2.1.2) (fun _ => none) forward.2.2
    playback.2.1.failures = [] ∧ playback.2.2.policies = d.policies := by
  intro d forward playback
  let cap : Capacity := ⟨1, fun _ => 1, 0⟩
  have free : ∀ {K : Type} {s : Set K}, s = ∅ → s.ncard < 1 := by
    intro K s same
    subst same
    simp
  have limited : Obeys (fun op error d => cap.Limits op error d.shape) d forward.1 := by
    refine ⟨fun _ => trivial, fun _ => trivial, fun _ => trivial, fun _ => Or.inr (free ?_), ?_,
      trivial⟩
    · exact Set.eq_empty_of_forall_notMem fun key h => Bool.noConfusion h
    · exact nofun
  have onlySpace : Obeys (fun op error d => cap.Decides op error d.shape) forward.2.2
      playback.1 := by
    refine ⟨iff_of_true rfl trivial, iff_of_true rfl (Or.inr (free ?_)),
      iff_of_true rfl (Or.inr (free ?_)), trivial⟩
    · apply Set.eq_empty_of_forall_notMem
      intro key h
      have h : (((Table.empty.insert ⟨1, dirRx⟩ {} : Table LimitKey LimitState).remove
          ⟨1, dirRx⟩) key).isSome = true := h
      by_cases hkey : key = ⟨1, dirRx⟩ <;> simp [hkey] at h
    · apply Set.eq_empty_of_forall_notMem
      intro key h
      have h : (((Table.empty.insert ⟨1, dirRx⟩ _ : Table LimitKey LimitPolicy).remove
          ⟨1, dirRx⟩) key).isSome = true := h
      by_cases hkey : key = ⟨1, dirRx⟩ <;> simp [hkey] at h
  have h := rollback_has_room cap [.install 1 dirRx 8000000 0 algoSlidingWindowLog 1000000000]
    [] [] d forward.2.2 playback.2.2 (Dataplane.armedFlow_settled _ _).1
    (Dataplane.armedFlow_settled _ _).2
    (Capacity.holdsFlows_armedFlow le_rfl fun _ => le_rfl)
    (fun _ => iff_of_false Bool.false_ne_true List.not_mem_nil) (by decide)
    forward.1 playback.1 _ forward.2.1.2 playback.2.1 (runs_exec _ _ _ _) limited
    (runs_exec _ _ _ _) onlySpace
  exact ⟨h.2.1, h.2.2.2.1⟩

end VmWatcher

import VmWatcher.Daemon.Proofs.HardInvariant
import VmWatcher.Daemon.Proofs.Rollback
import VmWatcher.Daemon.System

/-!
# What a transaction can do to the flows, whatever fails

A transaction and its rollback touch the flows of its actions and no others, one that
succeeds leaves exactly the policies it was asked for, and an install that fails on an
unarmed flow leaves it unarmed. None of this needs the maps to be clean beforehand.
-/

namespace VmWatcher

open OpProg

/-! ### Flows and prefixes that a transaction is not about -/

/-- The operation works on one of these. -/
def Touches (targets : RollbackTarget → Prop) (op : MapOp) (_ : Shape) : Prop := targets op.target

/-- The journal is about these flows and prefixes. -/
structure TxJournal.Touches (targets : RollbackTarget → Prop) (journal : TxJournal) : Prop where
  installs : ∀ rec ∈ journal.installs, targets (.flow rec.key)
  removes : ∀ rec ∈ journal.removes, targets (.flow rec.key)
  wlAdded : ∀ c ∈ journal.wlAdded, targets (.pref c)
  wlRemoved : ∀ c ∈ journal.wlRemoved, targets (.pref c)

section Frame

variable {targets : RollbackTarget → Prop} {σ σ' : Shape}

theorem TxJournal.Touches.empty : TxJournal.Touches targets {} := ⟨nofun, nofun, nofun, nofun⟩

theorem touches_flow {op : MapOp} {key : LimitKey} (hkey : targets (.flow key))
    (h : op.target = .flow key) : Touches targets op σ := by
  unfold Touches
  rwa [h]

theorem exec_flow_of_touches {op : MapOp} (h : Touches targets op σ) {k : LimitKey}
    (hk : ¬ targets (.flow k)) : (Shape.exec op σ).2.flow k = σ.flow k := by
  have hne : ∀ key, op.target = .flow key → k ≠ key := by
    intro key htarget same
    subst same
    exact hk (htarget ▸ h)
  cases op with
  | getPolicy key | clearPolicer key | wlInsert cidr | wlRemove cidr => rfl
  | armPolicy key policy => exact Shape.onFlow_flow_of_ne (hne key rfl)
  | disarmPolicy key => exact Shape.onFlow_flow_of_ne (hne key rfl)
  | writeFreshState key algorithm => exact Shape.onFlow_flow_of_ne (hne key rfl)
  | clearState key algorithm => exact Shape.onFlow_flow_of_ne (hne key rfl)

theorem exec_whitelisted_of_touches {op : MapOp} (h : Touches targets op σ) {c : Cidr}
    (hc : ¬ targets (.pref c)) : (Shape.exec op σ).2.whitelisted c = σ.whitelisted c := by
  have hne : ∀ cidr, op.target = .pref cidr → c ≠ cidr := by
    intro cidr htarget same
    subst same
    exact hc (htarget ▸ h)
  cases op with
  | wlInsert cidr | wlRemove cidr => exact Function.update_of_ne (hne cidr rfl) _ _
  | _ => rfl

/-- A transaction leaves the flows it is not about alone. -/
theorem Runs.frame {α : Type} {prog : Prog α} {evs : List (Event MapOp AnyError Shape)} {a : α}
    {post : List (Event MapOp AnyError Shape) → α → Shape → Prop}
    (h : wp Shape.exec (Touches targets) prog post σ) (run : Runs Shape.exec prog σ evs a σ')
    {k : LimitKey} (hk : ¬ targets (.flow k)) : σ'.flow k = σ.flow k := by
  have kept : ∀ op (τ : Shape), τ.flow k = σ.flow k → Touches targets op τ →
      (Shape.exec op τ).2.flow k = σ.flow k := fun op τ hτ hop =>
    (exec_flow_of_touches hop hk).trans hτ
  exact (wp_invariant kept rfl h run).2

/-- And so it does with prefixes, after every single operation. -/
theorem Runs.frame_whitelisted {α : Type} {prog : Prog α}
    {evs : List (Event MapOp AnyError Shape)} {a : α}
    {post : List (Event MapOp AnyError Shape) → α → Shape → Prop}
    (h : wp Shape.exec (Touches targets) prog post σ) (run : Runs Shape.exec prog σ evs a σ')
    {c : Cidr} (hc : ¬ targets (.pref c)) :
    (∀ ev ∈ evs, ev.after.whitelisted c = σ.whitelisted c) ∧
      σ'.whitelisted c = σ.whitelisted c := by
  have kept : ∀ op (τ : Shape), τ.whitelisted c = σ.whitelisted c → Touches targets op τ →
      (Shape.exec op τ).2.whitelisted c = σ.whitelisted c := fun op τ hτ hop =>
    (exec_whitelisted_of_touches hop hc).trans hτ
  exact wp_invariant kept rfl h run

theorem restorePolicy_touches {key : LimitKey} (hkey : targets (.flow key)) (old : LimitPolicy)
    (rearm : String) (report : RollbackReport) (σ : Shape) :
    wp Shape.exec (Touches targets) (restorePolicy key old rearm report) (fun _ _ _ => True) σ :=
  ⟨hkey, ⟨hkey, trivial, fun _ => trivial⟩, fun _ => trivial⟩

theorem rollbackInstall_touches {rec : InstallRecord} (hkey : targets (.flow rec.key))
    (report : RollbackReport) (σ : Shape) :
    wp Shape.exec (Touches targets) (rollbackInstall rec report) (fun _ _ _ => True) σ := by
  have clears : ∀ (report : RollbackReport) (σ : Shape),
      wp Shape.exec (Touches targets) (clearNewState rec report) (fun _ _ _ => True) σ := by
    intro report σ
    unfold clearNewState
    cases rec.newAlgorithm with
    | none => trivial
    | some algorithm => exact ⟨hkey, trivial, fun _ => trivial⟩
  have restores : ∀ (report : RollbackReport) (σ : Shape),
      wp Shape.exec (Touches targets) (restoreDisplaced rec report) (fun _ _ _ => True) σ := by
    intro report σ
    unfold restoreDisplaced
    cases rec.old with
    | none => trivial
    | some old =>
      by_cases h : rec.oldDisarmed
      · simp only [h, if_true]
        exact restorePolicy_touches hkey old "re-arm old policy" report σ
      · simp only [h]
        trivial
  have takesBack : ∀ σ : Shape,
      wp Shape.exec (Touches targets) (takeBack rec report.attempt) (fun _ _ _ => True) σ := by
    intro σ
    refine wp_takeBack (wp_mono (clears report.attempt σ) fun _ r σ _ => ?_)
    exact restores r.1 σ
  by_cases armed : rec.armed = true
  · rw [rollbackInstall_armed armed]
    exact ⟨hkey, takesBack _, fun _ => trivial⟩
  · rw [rollbackInstall_unarmed armed]
    exact takesBack σ

theorem rollbackRemove_touches {rec : RemoveRecord} (hkey : targets (.flow rec.key))
    (report : RollbackReport) (σ : Shape) :
    wp Shape.exec (Touches targets) (rollbackRemove rec report) (fun _ _ _ => True) σ := by
  unfold rollbackRemove
  by_cases h : rec.disarmed = true
  · simp only [h, if_true]
    rw [wp_bind]
    exact wp_mono (restorePolicy_touches hkey rec.old "re-arm removed policy" _ σ)
      fun _ _ _ _ => trivial
  · simp only [h]
    trivial

/-- The playback is about the flows of the journal. -/
theorem rollbackJournal_touches {journal : TxJournal} (h : journal.Touches targets) (σ : Shape) :
    wp Shape.exec (Touches targets) (rollbackJournal journal) (fun _ _ _ => True) σ := by
  unfold rollbackJournal
  rw [wp_bind]
  refine wp_mono (playBack_wp journal.installs {} σ fun rec hrec =>
    rollbackInstall_touches (h.installs rec hrec)) fun _ report σ _ => ?_
  rw [wp_bind]
  refine wp_mono (playBack_wp journal.removes report σ fun rec hrec =>
    rollbackRemove_touches (h.removes rec hrec)) fun _ report σ _ => ?_
  rw [wp_bind]
  refine wp_mono (playBack_wp journal.wlRemoved report σ fun c hc report σ =>
    ⟨h.wlRemoved c hc, trivial, fun _ => trivial⟩) fun _ report σ _ => ?_
  rw [wp_bind]
  exact wp_mono (playBack_wp journal.wlAdded report σ fun c hc report σ =>
    ⟨h.wlAdded c hc, trivial, fun _ => trivial⟩) fun _ report σ _ => trivial

variable {about : RollbackTarget → Prop}

theorem removePass_touches (actions : List LimitAction) (journal : TxJournal) (σ : Shape)
    (hkeys : ∀ a ∈ actions, targets (.flow a.key) ∧ about (.flow a.key))
    (h : journal.Touches about) :
    Tx.wp Shape.exec (Touches targets) (removePass actions)
      (fun _ journal _ => journal.Touches about) journal σ := by
  induction actions generalizing journal σ with
  | nil => exact h
  | cons action actions ih =>
    obtain ⟨⟨hkey, habout⟩, others⟩ := List.forall_mem_cons.mp hkeys
    cases action with
    | install => exact ih journal σ others h
    | remove ipv4 direction =>
      have first := Tx.wp_weaken (wp_removeLimit ⟨ipv4, direction⟩ journal σ)
        fun op τ hop => (touches_flow hkey hop.2 : Touches targets op τ)
      rw [removePass, Tx.wp_bind, Tx.wp_context]
      apply Tx.wp_mono first
      intro r journal' σ' hend
      have kept : journal'.Touches about := by
        rcases hend with ⟨-, rfl, -⟩ | ⟨old, rec, f', -, stage, -, rfl, -⟩
        · exact h
        · refine ⟨h.installs, ?_, h.wlAdded, h.wlRemoved⟩
          intro r hr
          rcases List.mem_cons.mp hr with rfl | hr
          · exact stage.key_eq ▸ habout
          · exact h.removes r hr
      cases r with
      | error e => exact kept
      | ok _ => exact ih journal' σ' others kept

theorem installPass_touches (actions : List LimitAction) (journal : TxJournal) (σ : Shape)
    (hkeys : ∀ a ∈ actions, targets (.flow a.key) ∧ about (.flow a.key))
    (h : journal.Touches about) :
    Tx.wp Shape.exec (Touches targets) (installPass actions)
      (fun _ journal _ => journal.Touches about) journal σ := by
  induction actions generalizing journal σ with
  | nil => exact h
  | cons action actions ih =>
    obtain ⟨⟨hkey, habout⟩, others⟩ := List.forall_mem_cons.mp hkeys
    cases action with
    | remove => exact ih journal σ others h
    | install ipv4 direction rateBps burstBytes algorithm windowNs =>
      have first := Tx.wp_weaken (wp_installLimit ⟨ipv4, direction⟩
        { enabled := 1, algorithm, rateBps, burstBytes, windowNs } journal σ)
        fun op τ hop => (touches_flow hkey hop.2 : Touches targets op τ)
      rw [installPass, Tx.wp_bind, Tx.wp_context]
      apply Tx.wp_mono first
      intro r journal' σ' hend
      have kept : journal'.Touches about := by
        rcases hend with ⟨-, rfl, -⟩ | ⟨rec, f', stage, -, rfl, -⟩
        · exact h
        · refine ⟨?_, h.removes, h.wlAdded, h.wlRemoved⟩
          intro r hr
          rcases List.mem_cons.mp hr with rfl | hr
          · exact stage.key_eq ▸ habout
          · exact h.installs r hr
      cases r with
      | error e => exact kept
      | ok _ => exact ih journal' σ' others kept

theorem runLimitActions_touches (actions : List LimitAction) {journal : TxJournal} (σ : Shape)
    (hkeys : ∀ a ∈ actions, targets (.flow a.key) ∧ about (.flow a.key))
    (h : journal.Touches about) :
    Tx.wp Shape.exec (Touches targets) (runLimitActions actions)
      (fun _ journal _ => journal.Touches about) journal σ := by
  rw [runLimitActions, Tx.wp_bind]
  refine Tx.wp_mono (removePass_touches actions journal σ hkeys h) fun r journal σ h => ?_
  cases r with
  | error e => exact h
  | ok _ => exact installPass_touches actions journal σ hkeys h

theorem applyWhitelistAdditions_touches (cs : List Cidr) (journal : TxJournal) (σ : Shape)
    (hcs : ∀ c ∈ cs, targets (.pref c)) (h : journal.Touches targets) :
    Tx.wp Shape.exec (Touches targets) (applyWhitelistAdditions cs)
      (fun _ journal _ => journal.Touches targets) journal σ := by
  induction cs generalizing journal σ with
  | nil => exact h
  | cons c cs ih =>
    obtain ⟨hc, hcs⟩ := List.forall_mem_cons.mp hcs
    rw [applyWhitelistAdditions, Tx.wp_perform_bind]
    refine ⟨hc, ?_, fun _ => h⟩
    rw [Tx.wp_journaled_bind]
    refine ih _ _ hcs ⟨h.installs, h.removes, ?_, h.wlRemoved⟩
    intro x hx
    rcases List.mem_cons.mp hx with rfl | hx
    · exact hc
    · exact h.wlAdded x hx

theorem applyWhitelistRemovals_touches (cs : List Cidr) (journal : TxJournal) (σ : Shape)
    (hcs : ∀ c ∈ cs, targets (.pref c)) (h : journal.Touches targets) :
    Tx.wp Shape.exec (Touches targets) (applyWhitelistRemovals cs)
      (fun _ journal _ => journal.Touches targets) journal σ := by
  induction cs generalizing journal σ with
  | nil => exact h
  | cons c cs ih =>
    obtain ⟨hc, hcs⟩ := List.forall_mem_cons.mp hcs
    rw [applyWhitelistRemovals, Tx.wp_perform_bind]
    refine ⟨hc, ?_, fun _ => h⟩
    rw [Tx.wp_journaled_bind]
    refine ih _ _ hcs ⟨h.installs, h.removes, h.wlAdded, ?_⟩
    intro x hx
    rcases List.mem_cons.mp hx with rfl | hx
    · exact hc
    · exact h.wlRemoved x hx

theorem applyReloadSteps_touches (actions : List LimitAction) (oldPrefixes newPrefixes : List Cidr)
    (σ : Shape) (hkeys : ∀ a ∈ actions, targets (.flow a.key))
    (added : ∀ c ∈ newPrefixes, c ∉ oldPrefixes → targets (.pref c))
    (dropped : ∀ c ∈ oldPrefixes, c ∉ newPrefixes → targets (.pref c)) :
    Tx.wp Shape.exec (Touches targets) (applyReloadSteps actions oldPrefixes newPrefixes)
      (fun _ journal _ => journal.Touches targets) {} σ := by
  have additions : ∀ c ∈ newPrefixes.filter (· ∉ oldPrefixes), targets (.pref c) := by
    intro c hc
    obtain ⟨hnew, hold⟩ := List.mem_filter.mp hc
    exact added c hnew (by simpa using hold)
  have removals : ∀ c ∈ oldPrefixes.filter (· ∉ newPrefixes), targets (.pref c) := by
    intro c hc
    obtain ⟨hold, hnew⟩ := List.mem_filter.mp hc
    exact dropped c hold (by simpa using hnew)
  rw [applyReloadSteps, Tx.wp_bind, Tx.wp_context]
  refine Tx.wp_mono (applyWhitelistAdditions_touches _ {} σ additions .empty) fun r journal σ h => ?_
  cases r with
  | error e => exact h
  | ok _ =>
    change Tx.wp _ _ (runLimitActions actions >>= _) _ _ _
    rw [Tx.wp_bind]
    refine Tx.wp_mono (runLimitActions_touches actions σ (fun a ha => ⟨hkeys a ha, hkeys a ha⟩) h)
      fun r journal σ h => ?_
    cases r with
    | error e => exact h
    | ok _ =>
      change Tx.wp _ _ (Tx.context _ _) _ _ _
      rw [Tx.wp_context]
      exact applyWhitelistRemovals_touches _ journal σ removals h

theorem transact_touches {tx : Tx Unit} {σ : Shape}
    (h : Tx.wp Shape.exec (Touches targets) tx (fun _ journal _ => journal.Touches targets) {} σ) :
    wp Shape.exec (Touches targets) (transact tx) (fun _ _ _ => True) σ := by
  unfold transact
  rw [wp_bind]
  refine wp_mono h ?_
  rintro - ⟨r, journal⟩ σ hjournal
  cases r with
  | ok _ => trivial
  | error e =>
    rw [wp_bind]
    exact wp_mono (rollbackJournal_touches hjournal σ) fun _ _ _ _ => trivial

end Frame

/-! ### The policies a transaction leaves -/

/-- The same policies are armed. -/
def Shape.ArmsAs (σ τ : Shape) : Prop := ∀ k, (σ.flow k).policy = (τ.flow k).policy

theorem Shape.ArmsAs.carryOut {σ τ : Shape} (h : σ.ArmsAs τ) (action : LimitAction) :
    (σ.carryOut action).ArmsAs (τ.carryOut action) := by
  intro k
  by_cases hk : k = action.key
  · simp [Shape.carryOut, hk]
  · simpa [Shape.carryOut, hk] using h k

theorem Shape.ArmsAs.foldl_carryOut {σ τ : Shape} (h : σ.ArmsAs τ) (actions : List LimitAction) :
    (actions.foldl Shape.carryOut σ).ArmsAs (actions.foldl Shape.carryOut τ) := by
  induction actions generalizing σ τ with
  | nil => exact h
  | cons action actions ih => exact ih (h.carryOut action)

theorem RemoveEnd.armsAs {key : LimitKey} {journal journal' : TxJournal} {σ σ' : Shape}
    {r : Except AnyError Unit} (h : RemoveEnd key journal σ r journal' σ') (ok : r.isOk) :
    σ'.ArmsAs (σ.onFlow key fun _ => .settled none) := by
  intro k
  rcases h with ⟨hnone, -, rfl⟩ | ⟨old, rec, f', -, -, hf', -, rfl⟩
  · by_cases hk : k = key
    · subst hk
      simpa using hnone ok
    · simp [hk]
  · by_cases hk : k = key
    · simp [hk, hf' ok, FlowShape.clear]
    · simp [hk]

theorem InstallEnd.armsAs {key : LimitKey} {p : LimitPolicy} {journal journal' : TxJournal}
    {σ σ' : Shape} {r : Except AnyError Unit} (h : InstallEnd key p journal σ r journal' σ')
    (ok : r.isOk) : σ'.ArmsAs (σ.onFlow key fun _ => .settled (some p)) := by
  rcases h with ⟨hr, -, -⟩ | ⟨rec, f', stage, hr, -, rfl⟩
  · exact absurd ok (by simp [hr])
  · have armed : f'.policy = some p := by
      rw [hr] at ok
      cases stage with
      | started | disarmed | displaced | written => exact Bool.noConfusion ok
      | armed => rfl
    intro k
    by_cases hk : k = key
    · simp [hk, armed]
    · simp [hk]

theorem removePass_armsAs (actions : List LimitAction) (journal : TxJournal) (σ : Shape) :
    Tx.wp Shape.exec AnyOp (removePass actions)
      (fun r _ σ' => r.isOk →
        σ'.ArmsAs ((actions.filter LimitAction.isRemove).foldl Shape.carryOut σ)) journal σ := by
  induction actions generalizing journal σ with
  | nil => exact fun _ _ => rfl
  | cons action actions ih =>
    cases action with
    | install => exact ih journal σ
    | remove ipv4 direction =>
      have one := Tx.wp_weaken (wp_removeLimit ⟨ipv4, direction⟩ journal σ)
        fun _ _ _ => (trivial : AnyOp _ _)
      rw [removePass, Tx.wp_bind, Tx.wp_context]
      apply Tx.wp_mono one
      intro r journal' σ' hend
      cases r with
      | error e => exact Tx.not_ok
      | ok _ =>
        apply Tx.wp_mono (ih journal' σ')
        intro r _ σ'' h ok k
        have first : σ'.ArmsAs (σ.carryOut (.remove ipv4 direction)) := hend.armsAs rfl
        exact (h ok k).trans (first.foldl_carryOut _ k)

theorem installPass_armsAs (actions : List LimitAction) (journal : TxJournal) (σ : Shape) :
    Tx.wp Shape.exec AnyOp (installPass actions)
      (fun r _ σ' => r.isOk →
        σ'.ArmsAs ((actions.filter (!LimitAction.isRemove ·)).foldl Shape.carryOut σ)) journal
      σ := by
  induction actions generalizing journal σ with
  | nil => exact fun _ _ => rfl
  | cons action actions ih =>
    cases action with
    | remove => exact ih journal σ
    | install ipv4 direction rateBps burstBytes algorithm windowNs =>
      have one := Tx.wp_weaken (wp_installLimit ⟨ipv4, direction⟩
        { enabled := 1, algorithm, rateBps, burstBytes, windowNs } journal σ)
        fun _ _ _ => (trivial : AnyOp _ _)
      rw [installPass, Tx.wp_bind, Tx.wp_context]
      apply Tx.wp_mono one
      intro r journal' σ' hend
      cases r with
      | error e => exact Tx.not_ok
      | ok _ =>
        apply Tx.wp_mono (ih journal' σ')
        intro r _ σ'' h ok k
        have first : σ'.ArmsAs
            (σ.carryOut (.install ipv4 direction rateBps burstBytes algorithm windowNs)) :=
          hend.armsAs rfl
        exact (h ok k).trans (first.foldl_carryOut _ k)

/-- Actions that all succeed leave exactly the policies they ask for, whatever else was
in the maps. -/
theorem runLimitActions_armsAs (actions : List LimitAction) (journal : TxJournal) (σ : Shape) :
    Tx.wp Shape.exec AnyOp (runLimitActions actions)
      (fun r _ σ' => r.isOk → σ'.ArmsAs (σ.carryOutAll actions)) journal σ := by
  rw [runLimitActions, Tx.wp_bind]
  refine Tx.wp_mono (removePass_armsAs actions journal σ) fun r journal' σ' h => ?_
  cases r with
  | error e => exact Tx.not_ok
  | ok _ =>
    refine Tx.wp_mono (installPass_armsAs actions journal' σ') fun r _ σ'' h' ok k => ?_
    rw [Shape.carryOutAll, List.foldl_append]
    exact (h' ok k).trans ((h rfl).foldl_carryOut _ k)

/-! ### How a transaction ends -/

/-- The flows do not depend on what is whitelisted. -/
theorem exec_flow_congr (op : MapOp) {σ τ : Shape} (h : τ.flow = σ.flow) :
    (Shape.exec op τ).1 = (Shape.exec op σ).1 ∧
      (Shape.exec op τ).2.flow = (Shape.exec op σ).2.flow := by
  cases op <;> simp [Shape.exec, Shape.onFlow, h]

theorem Runs.of_flow {α : Type} {prog : Prog α} {σ τ σ' : Shape}
    {evs : List (Event MapOp AnyError Shape)} {a : α} (run : Runs Shape.exec prog σ evs a σ')
    (h : τ.flow = σ.flow) :
    ∃ evs' τ', Runs Shape.exec prog τ evs' a τ' ∧ τ'.flow = σ'.flow := by
  induction run generalizing τ with
  | done a σ => exact ⟨[], τ, .done a τ, h⟩
  | @ok op next σ σ' evs a _ ih =>
    obtain ⟨result, flows⟩ := exec_flow_congr op h
    obtain ⟨evs', τ', run, hflow⟩ := ih flows
    rw [← result] at run
    exact ⟨_, τ', .ok run, hflow⟩
  | fail e _ ih =>
    obtain ⟨evs', τ', run, hflow⟩ := ih h
    exact ⟨_, τ', .fail e run, hflow⟩

/-- A transaction succeeds, or its journal is played back. -/
theorem transact_inv {S : Type} {eff : (op : MapOp) → S → op.Res × S} {tx : Tx Unit} {s s' : S}
    {evs : List (Event MapOp AnyError S)} {r : Except (AnyError × RollbackReport) Unit}
    (run : Runs eff (transact tx) s evs r s') :
    ∃ evs₁ r₁ journal s₁, Runs eff (tx {}) s evs₁ (r₁, journal) s₁ ∧
      ((r₁ = .ok () ∧ r = .ok () ∧ s' = s₁ ∧ evs = evs₁) ∨
        ∃ e evs₂ report, r₁ = .error e ∧ r = .error (e, report) ∧
          Runs eff (rollbackJournal journal) s₁ evs₂ report s' ∧ evs = evs₁ ++ evs₂) := by
  obtain ⟨evs₁, ⟨r₁, journal⟩, s₁, evs₂, first, rest, rfl⟩ := run.bind_inv
  refine ⟨evs₁, r₁, journal, s₁, first, ?_⟩
  cases r₁ with
  | ok _ =>
    cases rest
    exact Or.inl ⟨rfl, rfl, rfl, List.append_nil _⟩
  | error e =>
    obtain ⟨evs₂, report, s₂, evs₃, playback, last, rfl⟩ := rest.bind_inv
    cases last
    exact Or.inr ⟨e, evs₂, report, rfl, rfl, playback, by rw [List.append_nil]⟩

/-- How a transaction of actions ends. -/
structure Outcome (actions : List LimitAction) (σ : Shape)
    (r : Except (AnyError × RollbackReport) Unit) (σ' : Shape) : Prop where
  other : ∀ k, (∀ a ∈ actions, a.key ≠ k) → σ'.flow k = σ.flow k
  done : r.isOk → σ'.ArmsAs (σ.carryOutAll actions)
  settled : σ.Settled → r.isOk → σ'.flow = (σ.carryOutAll actions).flow
  restored : σ.Settled → cleanEnd Prod.snd r → r.isOk = false → σ'.flow = σ.flow

/-- The flows of the actions, and all prefixes. -/
def flowsOf (actions : List LimitAction) : RollbackTarget → Prop
  | .flow key => ∃ a ∈ actions, a.key = key
  | .pref _ => True

/-- A transaction ends as its forward part says, or is taken back. -/
theorem Outcome.of_forward {actions : List LimitAction} {tx : Tx Unit} {σ σ' : Shape}
    {evs : List (Event MapOp AnyError Shape)} {r : Except (AnyError × RollbackReport) Unit}
    (run : Runs Shape.exec (transact tx) σ evs r σ')
    (about : Tx.wp Shape.exec (Touches (flowsOf actions)) tx
      (fun _ journal _ => journal.Touches (flowsOf actions)) {} σ)
    (arms : Tx.wp Shape.exec AnyOp tx
      (fun r _ σ' => r.isOk → σ'.ArmsAs (σ.carryOutAll actions)) {} σ)
    (takesBack : σ.Settled → Tx.wp Shape.exec AnyOp tx
      (fun r journal σ' => (journal.undo σ').flow = σ.flow ∧
        (r.isOk → σ'.flow = (σ.carryOutAll actions).flow)) {} σ) :
    Outcome actions σ r σ' := by
  obtain ⟨evs₁, r₁, journal, σ₁, forward, hend⟩ := transact_inv run
  refine ⟨?_, ?_, ?_, ?_⟩
  · intro k hk
    refine Runs.frame (transact_touches about) run ?_
    intro h
    obtain ⟨a, ha, hkey⟩ := h
    exact hk a ha hkey
  · intro hok
    rcases hend with ⟨rfl, -, rfl, -⟩ | ⟨e, _, report, -, rfl, -⟩
    · exact wp_sound arms forward rfl
    · exact Bool.noConfusion hok
  · intro hσ hok
    rcases hend with ⟨rfl, -, rfl, -⟩ | ⟨e, _, report, -, rfl, -⟩
    · exact (wp_sound (takesBack hσ) forward).2 rfl
    · exact Bool.noConfusion hok
  · intro hσ clean hfailed
    rcases hend with ⟨-, rfl, -⟩ | ⟨e, _, report, rfl, rfl, playback, -⟩
    · exact Bool.noConfusion hfailed
    · obtain ⟨-, -, undone⟩ := wp_sound (rollbackJournal_restores journal σ₁) playback
      rw [undone clean]
      exact (wp_sound (takesBack hσ) forward).1

theorem limitActions_outcome {actions : List LimitAction} {σ σ' : Shape}
    {evs : List (Event MapOp AnyError Shape)} {r : Except (AnyError × RollbackReport) Unit}
    (run : Runs Shape.exec (transact (runLimitActions actions)) σ evs r σ') :
    Outcome actions σ r σ' := by
  refine .of_forward run ?_ (runLimitActions_armsAs actions {} σ) ?_
  · exact runLimitActions_touches actions σ (fun a ha => ⟨⟨a, ha, rfl⟩, a, ha, rfl⟩) .empty
  · intro hσ
    refine Tx.wp_mono (runLimitActions_takesBack actions hσ (.empty σ) rfl) fun r journal σ' h => ?_
    exact ⟨congrArg Shape.flow h.1.undo_eq, fun hok => congrArg Shape.flow (h.2 hok)⟩

theorem applyWhitelistAdditions_flow (cs : List Cidr) (journal : TxJournal) (σ : Shape) :
    Tx.wp Shape.exec AnyOp (applyWhitelistAdditions cs) (fun _ _ σ' => σ'.flow = σ.flow) journal
      σ := by
  induction cs generalizing journal σ with
  | nil => rfl
  | cons c cs ih =>
    rw [applyWhitelistAdditions, Tx.wp_perform_bind]
    refine ⟨trivial, ?_, fun _ => rfl⟩
    rw [Tx.wp_journaled_bind]
    exact ih _ (σ.setPrefix c true)

theorem applyWhitelistRemovals_flow (cs : List Cidr) (journal : TxJournal) (σ : Shape) :
    Tx.wp Shape.exec AnyOp (applyWhitelistRemovals cs) (fun _ _ σ' => σ'.flow = σ.flow) journal
      σ := by
  induction cs generalizing journal σ with
  | nil => rfl
  | cons c cs ih =>
    rw [applyWhitelistRemovals, Tx.wp_perform_bind]
    refine ⟨trivial, ?_, fun _ => rfl⟩
    rw [Tx.wp_journaled_bind]
    exact ih _ (σ.setPrefix c false)

theorem applyReloadSteps_armsAs (actions : List LimitAction) (oldPrefixes newPrefixes : List Cidr)
    (σ : Shape) :
    Tx.wp Shape.exec AnyOp (applyReloadSteps actions oldPrefixes newPrefixes)
      (fun r _ σ' => r.isOk → σ'.ArmsAs (σ.carryOutAll actions)) {} σ := by
  rw [applyReloadSteps, Tx.wp_bind, Tx.wp_context]
  refine Tx.wp_mono (applyWhitelistAdditions_flow _ {} σ) fun r journal σ₁ flow₁ => ?_
  cases r with
  | error e => exact Tx.not_ok
  | ok _ =>
    change Tx.wp _ _ (runLimitActions actions >>= _) _ _ _
    rw [Tx.wp_bind]
    refine Tx.wp_mono (runLimitActions_armsAs actions journal σ₁) fun r journal σ₂ arms => ?_
    cases r with
    | error e => exact Tx.not_ok
    | ok _ =>
      change Tx.wp _ _ (Tx.context _ _) _ _ _
      rw [Tx.wp_context]
      refine Tx.wp_mono (applyWhitelistRemovals_flow _ journal σ₂) fun r _ σ₃ flow₃ _ k => ?_
      have same : σ₁.ArmsAs σ := fun k => by rw [flow₁]
      rw [flow₃]
      exact (arms rfl k).trans (same.foldl_carryOut _ k)

theorem reloadSteps_outcome {actions : List LimitAction} {oldPrefixes newPrefixes : List Cidr}
    {σ σ' : Shape} {evs : List (Event MapOp AnyError Shape)}
    {r : Except (AnyError × RollbackReport) Unit}
    (run : Runs Shape.exec (transact (applyReloadSteps actions oldPrefixes newPrefixes)) σ evs r
      σ') : Outcome actions σ r σ' := by
  -- the limit maps do not see the whitelist, so it may be taken to hold the old prefixes
  let τ : Shape := { σ with whitelisted := fun c => decide (c ∈ oldPrefixes) }
  have lists : τ.Lists oldPrefixes newPrefixes :=
    ⟨fun c hc => decide_eq_true hc, fun c _ hc => decide_eq_false hc⟩
  obtain ⟨evs', τ', run', hflow⟩ := Runs.of_flow (τ := τ) run rfl
  have outcome : Outcome actions τ r τ' := by
    refine .of_forward run' ?_ (applyReloadSteps_armsAs actions oldPrefixes newPrefixes τ) ?_
    · exact applyReloadSteps_touches actions oldPrefixes newPrefixes τ (fun a ha => ⟨a, ha, rfl⟩)
        (fun _ _ _ => trivial) fun _ _ _ => trivial
    · intro hτ
      refine Tx.wp_mono (applyReloadSteps_takesBack actions oldPrefixes newPrefixes hτ lists)
        fun r journal σ' h => ?_
      exact ⟨congrArg Shape.flow h.1.undo_eq, h.2⟩
  have carried : (τ.carryOutAll actions).flow = (σ.carryOutAll actions).flow :=
    Shape.foldl_carryOut_flow _ rfl
  refine ⟨?_, ?_, ?_, ?_⟩
  · intro k hk
    rw [← hflow]
    exact outcome.other k hk
  · intro hok k
    rw [← hflow, ← carried]
    exact outcome.done hok k
  · intro hσ hok
    rw [← hflow, ← carried]
    exact outcome.settled hσ hok
  · intro hσ clean hfailed
    rw [← hflow]
    exact outcome.restored hσ clean hfailed

/-! ### An install that fails on an unarmed flow -/

/-- The operation arms nothing. -/
def ArmsNothing (op : MapOp) (_ : Shape) : Prop := ∀ key policy, op ≠ .armPolicy key policy

theorem exec_unarmed {op : MapOp} {σ : Shape} {k : LimitKey} (h : ArmsNothing op σ)
    (unarmed : (σ.flow k).policy = none) : ((Shape.exec op σ).2.flow k).policy = none := by
  cases op with
  | getPolicy key | clearPolicer key | wlInsert cidr | wlRemove cidr => exact unarmed
  | armPolicy key policy => exact absurd rfl (h key policy)
  | disarmPolicy key | writeFreshState key algorithm | clearState key algorithm =>
    by_cases hk : k = key
    · subst hk
      simp [Shape.exec, unarmed]
    · simpa [Shape.exec, hk] using unarmed

/-- The playback of an install that displaced nothing arms nothing. -/
theorem rollbackInstall_armsNothing {rec : InstallRecord} (hold : rec.old = none)
    (report : RollbackReport) (σ : Shape) :
    wp Shape.exec ArmsNothing (rollbackInstall rec report) (fun _ _ _ => True) σ := by
  have takesBack : ∀ σ : Shape,
      wp Shape.exec ArmsNothing (takeBack rec report.attempt) (fun _ _ _ => True) σ := by
    intro σ
    refine wp_takeBack ?_
    simp only [restoreDisplaced, hold]
    unfold clearNewState
    cases rec.newAlgorithm with
    | none => trivial
    | some algorithm => exact ⟨fun _ _ h => MapOp.noConfusion h, trivial, fun _ => trivial⟩
  by_cases armed : rec.armed = true
  · rw [rollbackInstall_armed armed]
    exact ⟨fun _ _ h => MapOp.noConfusion h, takesBack _, fun _ => trivial⟩
  · rw [rollbackInstall_unarmed armed]
    exact takesBack σ

theorem install_fails_unarmed {ipv4 : UInt32} {direction : UInt8} {rateBps burstBytes : ℕ}
    {algorithm : UInt32} {windowNs : ℕ} {σ σ' : Shape}
    {evs : List (Event MapOp AnyError Shape)} {r : Except (AnyError × RollbackReport) Unit}
    (run : Runs Shape.exec (transact (runLimitActions
      [.install ipv4 direction rateBps burstBytes algorithm windowNs])) σ evs r σ')
    (unarmed : (σ.flow ⟨ipv4, direction⟩).policy = none) (failed : r.isOk = false) :
    (σ'.flow ⟨ipv4, direction⟩).policy = none := by
  obtain ⟨evs₁, r₁, journal, σ₁, forward, hend⟩ := transact_inv run
  rcases hend with ⟨-, rfl, -⟩ | ⟨e, evs₂, report, rfl, rfl, playback, -⟩
  · exact Bool.noConfusion failed
  · have install : Tx.wp Shape.exec (Shape.SafeOn ⟨ipv4, direction⟩)
        (runLimitActions [.install ipv4 direction rateBps burstBytes algorithm windowNs])
        (fun r journal σ' => r.isOk = false →
          InstallEnd ⟨ipv4, direction⟩ { enabled := 1, algorithm, rateBps, burstBytes, windowNs }
            {} σ r journal σ') {} σ := by
      change Tx.wp _ _ (Tx.context _ _ >>= _) _ _ _
      rw [Tx.wp_bind, Tx.wp_context]
      refine Tx.wp_mono (wp_installLimit _ _ {} σ) fun r journal σ' h => ?_
      cases r with
      | error e => exact fun _ => h
      | ok _ => exact fun h => Bool.noConfusion h
    have kept : ∀ op (τ : Shape), (τ.flow ⟨ipv4, direction⟩).policy = none → ArmsNothing op τ →
        ((Shape.exec op τ).2.flow ⟨ipv4, direction⟩).policy = none := fun op τ hτ hop =>
      exec_unarmed hop hτ
    rcases wp_sound install forward rfl with ⟨-, rfl, rfl⟩ | ⟨rec, f', stage, hr, rfl, rfl⟩
    · have nothing : wp Shape.exec ArmsNothing (rollbackJournal {}) (fun _ _ _ => True) σ₁ := trivial
      exact (wp_invariant kept unarmed nothing playback).2
    · have hold : rec.old = none := by
        cases stage with
        | started | written | armed => exact unarmed
        | disarmed old displaces | displaced old displaces =>
          rw [unarmed] at displaces
          cases displaces
      have bare : f'.policy = none := by
        cases stage with
        | started => exact unarmed
        | disarmed old displaces => rfl
        | displaced old displaces => exact FlowShape.displaced_policy _ _
        | written => exact FlowShape.displaced_policy _ _
        | armed => exact Bool.noConfusion hr
      have nothing : wp Shape.exec ArmsNothing (rollbackJournal (TxJournal.pushInstall rec {}))
          (fun _ _ _ => True) (σ.onFlow ⟨ipv4, direction⟩ fun _ => f') := by
        unfold rollbackJournal
        rw [wp_bind]
        refine wp_mono (playBack_wp [rec] {} _ fun r hr => ?_) fun _ _ _ _ => trivial
        obtain rfl := List.mem_singleton.mp hr
        exact rollbackInstall_armsNothing hold
      refine (wp_invariant kept ?_ nothing playback).2
      rw [Shape.onFlow_flow_self]
      exact bare

end VmWatcher

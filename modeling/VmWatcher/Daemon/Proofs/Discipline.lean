import VmWatcher.Daemon.Interleaving
import VmWatcher.Daemon.TxRules
import VmWatcher.Core.Proofs.Enforced

/-!
# When state is written and policies are armed

Every transaction of separate actions writes fresh state only for a flow without an armed
policy, and arms a policy only on state that was written for this installation, in the
forward phase and in the rollback alike, whatever operations fail.
-/

namespace VmWatcher

open OpProg

/-- What the discipline is about: the armed policies and the history. -/
structure LimitLedger where
  policies : Table LimitKey LimitPolicy
  history : LimitHistory

namespace LimitLedger

/-- The map operations on ledgers. -/
def exec : (op : MapOp) → LimitLedger → op.Res × LimitLedger
  | .getPolicy key, l => (l.policies key, l)
  | .armPolicy key policy, l =>
    ((), ⟨l.policies.insert key policy, l.history.note (.armPolicy key policy)⟩)
  | .disarmPolicy key, l => ((), ⟨l.policies.remove key, l.history⟩)
  | .writeFreshState key algorithm, l =>
    ((), ⟨l.policies, l.history.note (.writeFreshState key algorithm)⟩)
  | .clearState _ _, l => ((), l)
  | .clearPolicer _, l => ((), l)
  | .wlInsert _, l => ((), l)
  | .wlRemove _, l => ((), l)

/-- State is written while the flow is unarmed, and a policy armed on state for it. -/
def Ordered : MapOp → LimitLedger → Prop
  | .writeFreshState key _, l => l.policies key = none
  | .armPolicy key policy, l =>
    l.history.freshFor key (artifactOf policy.algorithm) = (l.history.armed key).length
  | _, _ => True

/-- Only the policy of this flow may differ. -/
def Elsewhere (key : LimitKey) (l l' : LimitLedger) : Prop :=
  ∀ k, k ≠ key → l'.policies k = l.policies k

variable {key : LimitKey} {l l' l'' : LimitLedger}

theorem Elsewhere.refl : Elsewhere key l l := fun _ _ => rfl

theorem Elsewhere.trans (h : Elsewhere key l l') (h' : Elsewhere key l' l'') :
    Elsewhere key l l'' :=
  fun k hk => (h' k hk).trans (h k hk)

theorem elsewhere_disarm : Elsewhere key l (exec (.disarmPolicy key) l).2 :=
  fun _ hk => Table.remove_of_ne hk

theorem elsewhere_arm {policy : LimitPolicy} :
    Elsewhere key l (exec (.armPolicy key policy) l).2 :=
  fun _ hk => Table.insert_of_ne hk

theorem disarm_policies : (exec (.disarmPolicy key) l).2.policies key = none := Table.remove_self

/-- State just written is for the installation that is armed next. -/
theorem ordered_arm (policy : LimitPolicy) :
    Ordered (.armPolicy key policy) (exec (.writeFreshState key policy.algorithm) l).2 := by
  simp [Ordered, exec, LimitHistory.note]

end LimitLedger

open LimitLedger (Ordered Elsewhere elsewhere_arm elsewhere_disarm disarm_policies ordered_arm)

/-! ### Separate actions -/

theorem separate_of_nodup {actions : List LimitAction}
    (h : (actions.map LimitAction.flow).Nodup) : Separate actions := by
  intro a ha b hb removes installs same
  have flow : a.flow = b.flow := by
    simp only [LimitAction.key, LimitKey.mk.injEq] at same
    exact Prod.ext same.1 same.2
  obtain rfl := List.inj_on_of_nodup_map h ha hb flow
  rw [removes] at installs
  cases installs

/-- A tick has one transaction for each action. -/
theorem separate_tick (action : LimitAction) : Separate [action] :=
  separate_of_nodup (List.nodup_singleton _)

theorem separate_reload {l : Limiter} {cfg : ValidatedConfig} {now : ℕ} {limited : List FlowKey}
    {plan : ReloadPlan} (distinct : limited.Nodup)
    (h : l.planReload cfg now limited = .ok plan) : Separate plan.actions :=
  separate_of_nodup (Limiter.nodup_flows (Limiter.planReload_single distinct h))

/-! ### The playback -/

theorem wp_restorePolicy {key : LimitKey} (old : LimitPolicy) (rearm : String)
    (report : RollbackReport) {l : LimitLedger} (unarmed : l.policies key = none) :
    wp LimitLedger.exec Ordered (restorePolicy key old rearm report)
      (fun _ _ l' => Elsewhere key l l') l := by
  refine ⟨unarmed, ⟨ordered_arm old, ?_, ?_⟩, ?_⟩
  · exact elsewhere_arm
  · intro e
    exact .refl
  · intro e
    exact .refl

/-- The playback of the record finds the flow unarmed where it restores its old policy: it
disarms it itself, or the flow was left unarmed, or there is nothing to restore. -/
def InstallRecord.Reversible (rec : InstallRecord) (l : LimitLedger) : Prop :=
  rec.armed = true ∨ rec.oldDisarmed = false ∨ l.policies rec.key = none

theorem wp_restoreDisplaced {rec : InstallRecord} (report : RollbackReport) {l : LimitLedger}
    (h : rec.oldDisarmed = false ∨ l.policies rec.key = none) :
    wp LimitLedger.exec Ordered (restoreDisplaced rec report)
      (fun _ _ l' => Elsewhere rec.key l l') l := by
  unfold restoreDisplaced
  cases rec.old with
  | none => exact .refl
  | some old =>
    by_cases disarmed : rec.oldDisarmed = true
    · simp only [disarmed, if_true]
      exact wp_restorePolicy old "re-arm old policy" report (h.resolve_left (by simp [disarmed]))
    · simp only [disarmed]
      exact .refl

theorem wp_clearNewState (rec : InstallRecord) (report : RollbackReport) (l : LimitLedger) :
    wp LimitLedger.exec Ordered (clearNewState rec report) (fun _ _ l' => l' = l) l := by
  unfold clearNewState
  cases rec.newAlgorithm with
  | none => rfl
  | some algorithm => exact ⟨trivial, rfl, fun e => rfl⟩

theorem wp_takeBack_ordered {rec : InstallRecord} (report : RollbackReport) {l : LimitLedger}
    (h : rec.oldDisarmed = false ∨ l.policies rec.key = none) :
    wp LimitLedger.exec Ordered (takeBack rec report) (fun _ _ l' => Elsewhere rec.key l l') l := by
  apply wp_takeBack
  apply wp_mono (wp_clearNewState rec report l)
  intro _ r l' same
  subst same
  exact wp_restoreDisplaced r.1 h

theorem wp_rollbackInstall {rec : InstallRecord} (report : RollbackReport) {l : LimitLedger}
    (h : rec.Reversible l) :
    wp LimitLedger.exec Ordered (rollbackInstall rec report)
      (fun _ _ l' => Elsewhere rec.key l l') l := by
  by_cases armed : rec.armed = true
  · rw [rollbackInstall_armed armed]
    refine ⟨trivial, ?_, fun e => Elsewhere.refl⟩
    apply wp_mono (wp_takeBack_ordered report.attempt (.inr disarm_policies))
    intro _ _ l' rest
    exact elsewhere_disarm.trans rest
  · rw [rollbackInstall_unarmed armed]
    exact wp_takeBack_ordered report.attempt (h.resolve_left armed)

theorem wp_rollbackRemove {rec : RemoveRecord} (report : RollbackReport) {l : LimitLedger}
    (h : rec.disarmed = true → l.policies rec.key = none) :
    wp LimitLedger.exec Ordered (rollbackRemove rec report)
      (fun _ _ l' => Elsewhere rec.key l l') l := by
  unfold rollbackRemove
  by_cases disarmed : rec.disarmed = true
  · simp only [disarmed, if_true]
    rw [wp_bind]
    exact wp_mono (wp_restorePolicy rec.old "re-arm removed policy" _ (h disarmed))
      fun _ _ _ h' => h'
  · simp only [disarmed]
    exact Elsewhere.refl

/-- Only the policies of these flows may differ. -/
def Outside (keys : List LimitKey) (l l' : LimitLedger) : Prop :=
  ∀ k, k ∉ keys → l'.policies k = l.policies k

theorem LimitLedger.Elsewhere.cons {keys : List LimitKey} {key : LimitKey} {l l' l'' : LimitLedger}
    (first : Elsewhere key l l') (rest : Outside keys l' l'') : Outside (key :: keys) l l'' := by
  intro k hk
  rw [List.mem_cons, not_or] at hk
  exact (rest k hk.2).trans (first k hk.1)

theorem wp_playBack_installs (recs : List InstallRecord) (report : RollbackReport)
    (l : LimitLedger) (h : ∀ rec ∈ recs, rec.armed = true) :
    wp LimitLedger.exec Ordered (playBack rollbackInstall recs report)
      (fun _ _ l' => Outside (recs.map InstallRecord.key) l l') l := by
  induction recs generalizing report l with
  | nil => exact fun _ _ => rfl
  | cons rec recs ih =>
    obtain ⟨armed, older⟩ := List.forall_mem_cons.mp h
    rw [playBack, wp_bind]
    apply wp_mono (wp_rollbackInstall report (.inl armed))
    intro _ report l' first
    apply wp_mono (ih report l' older)
    intro _ _ l'' rest
    exact first.cons rest

theorem wp_playBack_removes (recs : List RemoveRecord) (report : RollbackReport)
    (l : LimitLedger) (distinct : (recs.map RemoveRecord.key).Nodup)
    (h : ∀ rec ∈ recs, rec.disarmed = true → l.policies rec.key = none) :
    wp LimitLedger.exec Ordered (playBack rollbackRemove recs report) (fun _ _ _ => True) l := by
  induction recs generalizing report l with
  | nil => trivial
  | cons rec recs ih =>
    obtain ⟨now, later⟩ := List.forall_mem_cons.mp h
    obtain ⟨fresh, distinct⟩ := List.nodup_cons.mp distinct
    rw [playBack, wp_bind]
    apply wp_mono (wp_rollbackRemove report now)
    intro _ report l' first
    apply ih report l' distinct
    intro r hr disarmed
    rw [first r.key]
    · exact later r hr disarmed
    · intro same
      exact fresh (same ▸ List.mem_map_of_mem hr)

/-- What a failed transaction leaves can be played back in order: only the newest install
may be incomplete, the removed flows are unarmed, and none of them was installed. -/
structure TxJournal.Reversible (journal : TxJournal) (l : LimitLedger) : Prop where
  newest : ∀ rec ∈ journal.installs.head?, rec.Reversible l
  older : ∀ rec ∈ journal.installs.tail, rec.armed = true
  removed : ∀ rec ∈ journal.removes, rec.disarmed = true → l.policies rec.key = none
  once : (journal.removes.map RemoveRecord.key).Nodup
  apart : ∀ rec ∈ journal.installs, ∀ rec' ∈ journal.removes, rec'.key ≠ rec.key

theorem wp_playBack_whitelist {ρ : Type} {rollback : ρ → RollbackReport → Prog RollbackReport}
    (h : ∀ rec report l, wp LimitLedger.exec Ordered (rollback rec report) (fun _ _ _ => True) l)
    (recs : List ρ) (report : RollbackReport) (l : LimitLedger) :
    wp LimitLedger.exec Ordered (playBack rollback recs report) (fun _ _ _ => True) l := by
  induction recs generalizing report l with
  | nil => trivial
  | cons rec recs ih =>
    rw [playBack, wp_bind]
    apply wp_mono (h rec report l)
    intro _ report l' _
    exact ih report l'

theorem wp_rollbackWlRemoved (c : Cidr) (report : RollbackReport) (l : LimitLedger) :
    wp LimitLedger.exec Ordered (rollbackWlRemoved c report) (fun _ _ _ => True) l :=
  ⟨trivial, trivial, fun _ => trivial⟩

theorem wp_rollbackWlAdded (c : Cidr) (report : RollbackReport) (l : LimitLedger) :
    wp LimitLedger.exec Ordered (rollbackWlAdded c report) (fun _ _ _ => True) l :=
  ⟨trivial, trivial, fun _ => trivial⟩

theorem wp_playBack_newest {journal : TxJournal} {l : LimitLedger} (h : journal.Reversible l)
    (report : RollbackReport) :
    wp LimitLedger.exec Ordered (playBack rollbackInstall journal.installs report)
      (fun _ _ l' => Outside (journal.installs.map InstallRecord.key) l l') l := by
  obtain ⟨newest, older, -, -, -⟩ := h
  cases hrecs : journal.installs with
  | nil => exact fun _ _ => rfl
  | cons rec recs =>
    rw [hrecs] at newest older
    rw [playBack, wp_bind]
    apply wp_mono (wp_rollbackInstall report (newest rec rfl))
    intro _ report l' first
    apply wp_mono (wp_playBack_installs recs report l' older)
    intro _ _ l'' rest
    exact first.cons rest

theorem wp_rollbackJournal {journal : TxJournal} {l : LimitLedger} (h : journal.Reversible l) :
    wp LimitLedger.exec Ordered (rollbackJournal journal) (fun _ _ _ => True) l := by
  unfold rollbackJournal
  rw [wp_bind]
  apply wp_mono (wp_playBack_newest h {})
  intro _ report l' outside
  rw [wp_bind]
  have removed : ∀ rec ∈ journal.removes, rec.disarmed = true → l'.policies rec.key = none := by
    intro rec hrec disarmed
    rw [outside rec.key]
    · exact h.removed rec hrec disarmed
    · intro hmem
      obtain ⟨i, hi, same⟩ := List.mem_map.mp hmem
      exact h.apart i hi rec hrec same.symm
  apply wp_mono (wp_playBack_removes journal.removes report l' h.once removed)
  intro _ report l'' _
  rw [wp_bind]
  apply wp_mono (wp_playBack_whitelist wp_rollbackWlRemoved journal.wlRemoved report l'')
  intro _ report l'' _
  rw [wp_bind]
  apply wp_mono (wp_playBack_whitelist wp_rollbackWlAdded journal.wlAdded report l'')
  intros
  trivial

/-! ### The actions -/

/-- How an install ends: with the journal as it was, or with a record of its flow, complete
when it succeeds and one that can be played back otherwise. -/
def InstallTurn (key : LimitKey) (journal : TxJournal) (l : LimitLedger) (r : Except AnyError Unit)
    (journal' : TxJournal) (l' : LimitLedger) : Prop :=
  Elsewhere key l l' ∧ ((r.isOk = false ∧ journal' = journal ∧ l' = l) ∨
    ∃ rec, rec.key = key ∧ journal' = journal.pushInstall rec ∧ rec.Reversible l' ∧
      (r.isOk = true → rec.armed = true))

theorem wp_disarmDisplaced_ordered {key : LimitKey} (policy : LimitPolicy) (journal : TxJournal)
    (l : LimitLedger) :
    Tx.wp LimitLedger.exec Ordered (disarmDisplaced key policy (l.policies key))
      (fun r journal' l' => Elsewhere key l l' ∧ ∃ rec, rec.key = key ∧
        journal' = journal.pushInstall rec ∧ rec.Reversible l' ∧
        (r.isOk = true → l'.policies key = none))
      (journal.pushInstall { key, old := l.policies key }) l := by
  cases h : l.policies key with
  | none => exact ⟨.refl, _, rfl, rfl, .inr (.inl rfl), fun _ => h⟩
  | some old =>
    rw [disarmDisplaced, Tx.wp_perform_bind]
    refine ⟨trivial, ?_, fun e => ⟨.refl, _, rfl, rfl, .inr (.inl rfl), Tx.not_ok⟩⟩
    rw [Tx.wp_journaled_bind]
    have disarmed : (LimitLedger.exec (.disarmPolicy key) l).2.policies key = none :=
      disarm_policies
    split_ifs
    · refine ⟨trivial, ?_, ?_⟩
      · exact ⟨elsewhere_disarm, _, rfl, rfl, .inr (.inr disarmed), fun _ => disarmed⟩
      · intro e
        exact ⟨elsewhere_disarm, _, rfl, rfl, .inr (.inr disarmed), Tx.not_ok⟩
    · exact ⟨elsewhere_disarm, _, rfl, rfl, .inr (.inr disarmed), fun _ => disarmed⟩

theorem wp_installLimit_ordered (key : LimitKey) (policy : LimitPolicy) (journal : TxJournal)
    (l : LimitLedger) :
    Tx.wp LimitLedger.exec Ordered (installLimit key policy) (InstallTurn key journal l) journal
      l := by
  rw [installLimit, Tx.wp_perform_bind]
  refine ⟨trivial, ?_, fun e => ⟨.refl, .inl ⟨rfl, rfl, rfl⟩⟩⟩
  rw [Tx.wp_journaled_bind, Tx.wp_bind]
  apply Tx.wp_mono (wp_disarmDisplaced_ordered policy journal l)
  intro r journal' l' left
  obtain ⟨elsewhere, rec, rfl, rfl, reversible, unarmed⟩ := left
  cases r with
  | error e => exact ⟨elsewhere, .inr ⟨rec, rfl, rfl, reversible, Tx.not_ok⟩⟩
  | ok _ =>
    have none := unarmed rfl
    dsimp only
    rw [Tx.wp_perform_bind]
    refine ⟨none, ?_, fun e => ⟨elsewhere, .inr ⟨rec, rfl, rfl, reversible, Tx.not_ok⟩⟩⟩
    rw [Tx.wp_journaled_bind, Tx.wp_perform_bind]
    refine ⟨ordered_arm policy, ?_, ?_⟩
    · exact ⟨elsewhere.trans elsewhere_arm,
        .inr ⟨{ rec with newAlgorithm := some policy.algorithm, armed := true }, rfl, rfl,
          .inl rfl, fun _ => rfl⟩⟩
    · intro e
      exact ⟨elsewhere,
        .inr ⟨{ rec with newAlgorithm := some policy.algorithm }, rfl, rfl,
          .inr (.inr none), Tx.not_ok⟩⟩

/-- How a remove ends: with the journal as it was, or with a record of its flow, which had a
policy and has none once it is disarmed. -/
def RemoveTurn (key : LimitKey) (journal : TxJournal) (l : LimitLedger) (r : Except AnyError Unit)
    (journal' : TxJournal) (l' : LimitLedger) : Prop :=
  Elsewhere key l l' ∧ ((journal' = journal ∧ l' = l) ∨
    ∃ rec, rec.key = key ∧ journal' = journal.pushRemove rec ∧ l.policies key ≠ none ∧
      (rec.disarmed = true → l'.policies key = none) ∧ (r.isOk = true → rec.disarmed = true))

theorem wp_removeLimit_ordered (key : LimitKey) (journal : TxJournal) (l : LimitLedger) :
    Tx.wp LimitLedger.exec Ordered (removeLimit key) (RemoveTurn key journal l) journal l := by
  rw [removeLimit, Tx.wp_perform_bind]
  refine ⟨trivial, ?_, fun e => ⟨.refl, .inl ⟨rfl, rfl⟩⟩⟩
  simp only [LimitLedger.exec]
  cases h : l.policies key with
  | none => exact ⟨.refl, .inl ⟨rfl, rfl⟩⟩
  | some old =>
    have armed : l.policies key ≠ none := by simp [h]
    dsimp only
    rw [Tx.wp_journaled_bind, Tx.wp_perform_bind]
    refine ⟨trivial, ?_, ?_⟩
    · have disarmed : (LimitLedger.exec (.disarmPolicy key) l).2.policies key = none :=
        disarm_policies
      have done : ∀ r : Except AnyError Unit, RemoveTurn key journal l r
          (journal.pushRemove { key, old, disarmed := true })
          (LimitLedger.exec (.disarmPolicy key) l).2 := fun r =>
        ⟨elsewhere_disarm, .inr ⟨_, rfl, rfl, armed, fun _ => disarmed, fun _ => rfl⟩⟩
      rw [Tx.wp_journaled_bind, Tx.wp_perform_bind]
      refine ⟨trivial, ⟨trivial, done _, fun e => done _⟩, fun e => done _⟩
    · intro e
      exact ⟨.refl, .inr ⟨{ key, old }, rfl, rfl, armed, Bool.noConfusion, Tx.not_ok⟩⟩

/-! ### Transactions -/

/-- Between two actions of a transaction: every install is complete and every removed flow
unarmed. -/
structure TxJournal.Done (removable installable : LimitKey → Prop) (journal : TxJournal)
    (l : LimitLedger) : Prop where
  armed : ∀ rec ∈ journal.installs, rec.armed = true ∧ installable rec.key
  removed : ∀ rec ∈ journal.removes, l.policies rec.key = none ∧ removable rec.key
  once : (journal.removes.map RemoveRecord.key).Nodup

section Passes

variable {removable installable : LimitKey → Prop} {journal journal' : TxJournal}
variable {l l' : LimitLedger}
variable {key : LimitKey} {r : Except AnyError Unit}

theorem TxJournal.Done.reversible (h : journal.Done removable installable l)
    (apart : ∀ k, removable k → ¬ installable k) : journal.Reversible l where
  newest rec hrec := .inl (h.armed rec (List.mem_of_mem_head? hrec)).1
  older rec hrec := (h.armed rec (List.mem_of_mem_tail hrec)).1
  removed rec hrec _ := (h.removed rec hrec).1
  once := h.once
  apart rec hrec rec' hrec' same :=
    apart rec.key (same ▸ (h.removed rec' hrec').2) (h.armed rec hrec).2

/-- After an action the journal can be played back, and after one that succeeded the next
action may follow. -/
def Leaves (removable installable : LimitKey → Prop) (r : Except AnyError Unit)
    (journal : TxJournal) (l : LimitLedger) : Prop :=
  journal.Reversible l ∧ (r.isOk = true → journal.Done removable installable l)

theorem TxJournal.Done.leaves (h : journal.Done removable installable l)
    (apart : ∀ k, removable k → ¬ installable k) : Leaves removable installable r journal l :=
  ⟨h.reversible apart, fun _ => h⟩

theorem RemoveTurn.leaves (h : RemoveTurn key journal l r journal' l')
    (done : journal.Done removable installable l) (apart : ∀ k, removable k → ¬ installable k)
    (mine : removable key) : Leaves removable installable r journal' l' := by
  obtain ⟨elsewhere, ⟨rfl, rfl⟩ | ⟨rec, rfl, rfl, armed, unarmed, complete⟩⟩ := h
  · exact done.leaves apart
  · have others : ∀ rec' ∈ journal.removes, rec'.key ≠ rec.key := by
      intro rec' hrec' same
      exact armed (same ▸ (done.removed rec' hrec').1)
    have once : ((journal.pushRemove rec).removes.map RemoveRecord.key).Nodup := by
      rw [TxJournal.pushRemove, List.map_cons, List.nodup_cons]
      refine ⟨?_, done.once⟩
      intro hmem
      obtain ⟨rec', hrec', same⟩ := List.mem_map.mp hmem
      exact others rec' hrec' same
    have earlier : ∀ rec' ∈ journal.removes, l'.policies rec'.key = none := by
      intro rec' hrec'
      rw [elsewhere rec'.key (others rec' hrec')]
      exact (done.removed rec' hrec').1
    constructor
    · refine ⟨?_, ?_, ?_, once, ?_⟩
      · intro i hi
        exact .inl (done.armed i (List.mem_of_mem_head? hi)).1
      · intro i hi
        exact (done.armed i (List.mem_of_mem_tail hi)).1
      · intro rec' hrec' disarmed
        rcases List.mem_cons.mp hrec' with rfl | hrec'
        · exact unarmed disarmed
        · exact earlier rec' hrec'
      · intro i hi rec' hrec' same
        have installed := (done.armed i hi).2
        rcases List.mem_cons.mp hrec' with rfl | hrec'
        · exact apart rec'.key mine (same ▸ installed)
        · exact apart rec'.key (done.removed rec' hrec').2 (same ▸ installed)
    · intro ok
      refine ⟨done.armed, ?_, once⟩
      intro rec' hrec'
      rcases List.mem_cons.mp hrec' with rfl | hrec'
      · exact ⟨unarmed (complete ok), mine⟩
      · exact ⟨earlier rec' hrec', (done.removed rec' hrec').2⟩

theorem InstallTurn.leaves (h : InstallTurn key journal l r journal' l')
    (done : journal.Done removable installable l) (apart : ∀ k, removable k → ¬ installable k)
    (mine : installable key) : Leaves removable installable r journal' l' := by
  obtain ⟨elsewhere, ⟨-, rfl, rfl⟩ | ⟨rec, rfl, rfl, reversible, complete⟩⟩ := h
  · exact done.leaves apart
  · have removed : ∀ rec' ∈ journal.removes, l'.policies rec'.key = none ∧ removable rec'.key := by
      intro rec' hrec'
      obtain ⟨unarmed, other⟩ := done.removed rec' hrec'
      refine ⟨?_, other⟩
      rw [elsewhere rec'.key fun same => apart rec'.key other (same ▸ mine)]
      exact unarmed
    constructor
    · refine ⟨?_, ?_, ?_, done.once, ?_⟩
      · intro i hi
        obtain rfl := Option.some.inj hi
        exact reversible
      · intro i hi
        exact (done.armed i hi).1
      · intro rec' hrec' _
        exact (removed rec' hrec').1
      · intro i hi rec' hrec' same
        apply apart rec'.key (removed rec' hrec').2
        rcases List.mem_cons.mp hi with rfl | hi
        · exact same ▸ mine
        · exact same ▸ (done.armed i hi).2
    · intro ok
      refine ⟨?_, removed, done.once⟩
      intro i hi
      rcases List.mem_cons.mp hi with rfl | hi
      · exact ⟨complete ok, mine⟩
      · exact done.armed i hi

theorem wp_removePass_ordered (apart : ∀ k, removable k → ¬ installable k)
    (actions : List LimitAction) (journal : TxJournal) (l : LimitLedger)
    (mine : ∀ a ∈ actions, a.isRemove = true → removable a.key)
    (settled : journal.Done removable installable l) :
    Tx.wp LimitLedger.exec Ordered (removePass actions) (Leaves removable installable) journal
      l := by
  induction actions generalizing journal l with
  | nil => exact settled.leaves apart
  | cons action actions ih =>
    obtain ⟨own, others⟩ := List.forall_mem_cons.mp mine
    cases action with
    | install => exact ih journal l others settled
    | remove ipv4 direction =>
      rw [removePass, Tx.wp_bind, Tx.wp_context]
      apply Tx.wp_mono (wp_removeLimit_ordered ⟨ipv4, direction⟩ journal l)
      intro r journal' l' turn
      have leaves := turn.leaves settled apart (own rfl)
      cases r with
      | error e => exact ⟨leaves.1, Tx.not_ok⟩
      | ok _ => exact ih journal' l' others (leaves.2 rfl)

theorem wp_installPass_ordered (apart : ∀ k, removable k → ¬ installable k)
    (actions : List LimitAction) (journal : TxJournal) (l : LimitLedger)
    (mine : ∀ a ∈ actions, a.isRemove = false → installable a.key)
    (settled : journal.Done removable installable l) :
    Tx.wp LimitLedger.exec Ordered (installPass actions) (Leaves removable installable) journal
      l := by
  induction actions generalizing journal l with
  | nil => exact settled.leaves apart
  | cons action actions ih =>
    obtain ⟨own, others⟩ := List.forall_mem_cons.mp mine
    cases action with
    | remove => exact ih journal l others settled
    | install ipv4 direction rateBps burstBytes algorithm windowNs =>
      rw [installPass, Tx.wp_bind, Tx.wp_context]
      apply Tx.wp_mono (wp_installLimit_ordered ⟨ipv4, direction⟩
        { enabled := 1, algorithm, rateBps, burstBytes, windowNs } journal l)
      intro r journal' l' turn
      have leaves := turn.leaves settled apart (own rfl)
      cases r with
      | error e => exact ⟨leaves.1, Tx.not_ok⟩
      | ok _ => exact ih journal' l' others (leaves.2 rfl)

theorem wp_runLimitActions_ordered (apart : ∀ k, removable k → ¬ installable k)
    {actions : List LimitAction} (removes : ∀ a ∈ actions, a.isRemove = true → removable a.key)
    (installs : ∀ a ∈ actions, a.isRemove = false → installable a.key)
    (settled : journal.Done removable installable l) :
    Tx.wp LimitLedger.exec Ordered (runLimitActions actions) (Leaves removable installable) journal
      l := by
  rw [runLimitActions, Tx.wp_bind]
  apply Tx.wp_mono (wp_removePass_ordered apart actions journal l removes settled)
  intro r journal' l' leaves
  cases r with
  | error e => exact leaves
  | ok _ => exact wp_installPass_ordered apart actions journal' l' installs (leaves.2 rfl)

end Passes

/-! ### The whitelist steps -/

/-- The limit records and the ledger stay as they were. -/
def Untouched (journal : TxJournal) (l : LimitLedger) (journal' : TxJournal)
    (l' : LimitLedger) : Prop :=
  journal'.installs = journal.installs ∧ journal'.removes = journal.removes ∧ l' = l

theorem wp_applyWhitelistAdditions_ordered (additions : List Cidr) (journal : TxJournal)
    (l : LimitLedger) : Tx.wp LimitLedger.exec Ordered (applyWhitelistAdditions additions)
      (fun _ => Untouched journal l) journal l := by
  induction additions generalizing journal with
  | nil => exact ⟨rfl, rfl, rfl⟩
  | cons c additions ih =>
    rw [applyWhitelistAdditions, Tx.wp_perform_bind]
    refine ⟨trivial, ?_, fun e => ⟨rfl, rfl, rfl⟩⟩
    rw [Tx.wp_journaled_bind]
    exact ih { journal with wlAdded := c :: journal.wlAdded }

theorem wp_applyWhitelistRemovals_ordered (removals : List Cidr) (journal : TxJournal)
    (l : LimitLedger) : Tx.wp LimitLedger.exec Ordered (applyWhitelistRemovals removals)
      (fun _ => Untouched journal l) journal l := by
  induction removals generalizing journal with
  | nil => exact ⟨rfl, rfl, rfl⟩
  | cons c removals ih =>
    rw [applyWhitelistRemovals, Tx.wp_perform_bind]
    refine ⟨trivial, ?_, fun e => ⟨rfl, rfl, rfl⟩⟩
    rw [Tx.wp_journaled_bind]
    exact ih { journal with wlRemoved := c :: journal.wlRemoved }

section Transactions

variable {removable installable : LimitKey → Prop} {journal journal' : TxJournal}
variable {l l' : LimitLedger}

theorem Untouched.done (h : Untouched journal l journal' l')
    (settled : journal.Done removable installable l) :
    journal'.Done removable installable l' := by
  obtain ⟨installs, removes, rfl⟩ := h
  refine ⟨?_, ?_, ?_⟩
  · rw [installs]
    exact settled.armed
  · rw [removes]
    exact settled.removed
  · rw [removes]
    exact settled.once

theorem TxJournal.Done.empty : ({} : TxJournal).Done removable installable l where
  armed _ hrec := absurd hrec List.not_mem_nil
  removed _ hrec := absurd hrec List.not_mem_nil
  once := List.nodup_nil

theorem wp_applyReloadSteps_ordered (apart : ∀ k, removable k → ¬ installable k)
    {actions : List LimitAction} (removes : ∀ a ∈ actions, a.isRemove = true → removable a.key)
    (installs : ∀ a ∈ actions, a.isRemove = false → installable a.key)
    (oldPrefixes newPrefixes : List Cidr) (settled : journal.Done removable installable l) :
    Tx.wp LimitLedger.exec Ordered (applyReloadSteps actions oldPrefixes newPrefixes)
      (Leaves removable installable) journal l := by
  rw [applyReloadSteps, Tx.wp_bind, Tx.wp_context]
  apply Tx.wp_mono (wp_applyWhitelistAdditions_ordered _ journal l)
  intro r journal' l' untouched
  have settled := untouched.done settled
  cases r with
  | error e => exact settled.leaves apart
  | ok _ =>
    dsimp only
    rw [Tx.wp_bind]
    apply Tx.wp_mono (wp_runLimitActions_ordered apart removes installs settled)
    intro r journal' l' leaves
    cases r with
    | error e => exact leaves
    | ok _ =>
      dsimp only
      rw [Tx.wp_context]
      apply Tx.wp_mono (wp_applyWhitelistRemovals_ordered _ journal' l')
      intro r journal'' l'' untouched
      exact (untouched.done (leaves.2 rfl)).leaves apart

theorem Transaction.wp_tx {transaction : Transaction} (separate : Separate transaction.actions)
    (l : LimitLedger) :
    Tx.wp LimitLedger.exec Ordered transaction.tx
      (Leaves (fun k => ∃ a ∈ transaction.actions, a.isRemove = true ∧ a.key = k)
        (fun k => ∃ a ∈ transaction.actions, a.isRemove = false ∧ a.key = k)) {} l := by
  have apart : ∀ k, (∃ a ∈ transaction.actions, a.isRemove = true ∧ a.key = k) →
      ¬ ∃ a ∈ transaction.actions, a.isRemove = false ∧ a.key = k := by
    intro k removed installed
    obtain ⟨a, ha, removes, rfl⟩ := removed
    obtain ⟨b, hb, installs, same⟩ := installed
    exact separate a ha b hb removes installs same.symm
  cases transaction with
  | limits actions =>
    exact wp_runLimitActions_ordered apart (fun a ha h => ⟨a, ha, h, rfl⟩)
      (fun a ha h => ⟨a, ha, h, rfl⟩) .empty
  | reload actions oldPrefixes newPrefixes =>
    exact wp_applyReloadSteps_ordered apart (fun a ha h => ⟨a, ha, h, rfl⟩)
      (fun a ha h => ⟨a, ha, h, rfl⟩) oldPrefixes newPrefixes .empty

/-- Every transaction keeps the order, its playback included. -/
theorem Transaction.ordered {transaction : Transaction}
    (separate : Separate transaction.actions) (l : LimitLedger) :
    wp LimitLedger.exec Ordered (transact transaction.tx) (fun _ _ _ => True) l := by
  rw [transact, wp_bind]
  apply wp_mono (wp_tx separate l)
  intro evs r l' leaves
  obtain ⟨r, journal⟩ := r
  cases r with
  | ok _ => trivial
  | error e =>
    dsimp only
    rw [wp_bind]
    exact wp_mono (wp_rollbackJournal leaves.1) fun _ _ _ _ => trivial

end Transactions

end VmWatcher

import VmWatcher.Daemon.Apply
import VmWatcher.Misc.OpEnv

/-!
# Reasoning about transactions

`Tx.wp ok tx post journal s`: whatever operations fail, `tx` run from `journal` and `s`
calls each operation in a store `ok` admits for it, and ends in `post`, which sees the
result, the journal and the store. `Tx.wpUnder may tx post journal s` says the same of the
runs an environment allows.
-/

namespace VmWatcher.Tx

variable {S α β : Type}

/-- An error is no success. -/
theorem not_ok {e : AnyError} {P : Prop} (h : (Except.error e : Except AnyError α).isOk = true) :
    P := Bool.noConfusion h

/-- The weakest precondition of a transaction over all choices of failures. -/
def wp (eff : (op : MapOp) → S → op.Res × S) (ok : MapOp → S → Prop) (tx : Tx α)
    (post : Except AnyError α → TxJournal → S → Prop) (journal : TxJournal) (s : S) : Prop :=
  OpProg.wp eff ok (tx journal) (fun _ r s' => post r.1 r.2 s') s

variable {eff : (op : MapOp) → S → op.Res × S} {ok : MapOp → S → Prop}
variable {post post' : Except AnyError α → TxJournal → S → Prop} {journal : TxJournal} {s : S}

@[simp] theorem wp_pure (a : α) : wp eff ok (pure a) post journal s ↔ post (.ok a) journal s :=
  Iff.rfl

theorem wp_mono {tx : Tx α} (h : wp eff ok tx post journal s)
    (himp : ∀ r journal s, post r journal s → post' r journal s) : wp eff ok tx post' journal s :=
  OpProg.wp_mono h fun _ r s => himp r.1 r.2 s

theorem wp_weaken {ok' : MapOp → S → Prop} {tx : Tx α} (h : wp eff ok tx post journal s)
    (himp : ∀ op s, ok op s → ok' op s) : wp eff ok' tx post journal s :=
  OpProg.wp_weaken h himp

theorem wp_keeping {inv : S → Prop} (keeps : ∀ op s, inv s → ok op s → inv (eff op s).2)
    {tx : Tx α} (h : wp eff ok tx post journal s) (hs : inv s) :
    wp eff ok tx (fun r journal s' => post r journal s' ∧ inv s') journal s :=
  OpProg.wp_keeping keeps h hs

theorem bind_apply (tx : Tx α) (f : α → Tx β) (journal : TxJournal) :
    (tx >>= f) journal = tx journal >>= fun
      | (.ok a, journal) => f a journal
      | (.error e, journal) => .done (.error e, journal) := rfl

/-- After an error the rest of a transaction does not run. -/
theorem wp_bind {tx : Tx α} {f : α → Tx β} {post : Except AnyError β → TxJournal → S → Prop} :
    wp eff ok (tx >>= f) post journal s ↔
      wp eff ok tx (fun r journal s =>
        match r with
        | .ok a => wp eff ok (f a) post journal s
        | .error e => post (.error e) journal s) journal s := by
  unfold wp
  rw [bind_apply, OpProg.wp_bind]
  constructor
  · intro h
    apply OpProg.wp_mono h
    intro _ r s
    obtain ⟨r, journal⟩ := r
    cases r <;> exact id
  · intro h
    apply OpProg.wp_mono h
    intro _ r s
    obtain ⟨r, journal⟩ := r
    cases r <;> exact id

@[simp] theorem wp_perform (op : MapOp) {post : Except AnyError op.Res → TxJournal → S → Prop} :
    wp eff ok (perform op) post journal s ↔
      ok op s ∧ post (.ok (eff op s).1) journal (eff op s).2 ∧
        ∀ e, post (.error e) journal s := Iff.rfl

@[simp] theorem wp_journaled (f : TxJournal → TxJournal)
    {post : Except AnyError Unit → TxJournal → S → Prop} :
    wp eff ok (journaled f) post journal s ↔ post (.ok ()) (f journal) s := Iff.rfl

/-- An operation and what follows it: the rest runs on its result, or not at all. -/
theorem wp_perform_bind (op : MapOp) (f : op.Res → Tx β)
    {post : Except AnyError β → TxJournal → S → Prop} :
    wp eff ok (perform op >>= f) post journal s ↔
      ok op s ∧ wp eff ok (f (eff op s).1) post journal (eff op s).2 ∧
        ∀ e, post (.error e) journal s := Iff.rfl

@[simp] theorem wp_journaled_bind (g : TxJournal → TxJournal) (f : Unit → Tx β)
    {post : Except AnyError β → TxJournal → S → Prop} :
    wp eff ok (journaled g >>= f) post journal s ↔ wp eff ok (f ()) post (g journal) s := Iff.rfl

theorem wp_context (text : String) (tx : Tx α) :
    wp eff ok (tx.context text) post journal s ↔
      wp eff ok tx (fun r => post (r.mapError (·.context text))) journal s := by
  unfold wp context
  change OpProg.wp eff ok (tx journal >>= fun r => .done (r.1.mapError _, r.2)) _ s ↔ _
  rw [OpProg.wp_bind]
  simp only [OpProg.wp_done]

/-! ### In an environment -/

/-- The precondition of a transaction for all runs the environment allows. -/
def wpUnder (eff : (op : MapOp) → S → op.Res × S) (may : MapOp → Option AnyError → S → Prop)
    (tx : Tx α) (post : Except AnyError α → TxJournal → S → Prop) (journal : TxJournal) (s : S) :
    Prop :=
  OpProg.wpUnder eff may (tx journal) (fun r s' => post r.1 r.2 s') s

variable {may : MapOp → Option AnyError → S → Prop}

theorem wpUnder_mono {tx : Tx α} (h : wpUnder eff may tx post journal s)
    (himp : ∀ r journal s, post r journal s → post' r journal s) :
    wpUnder eff may tx post' journal s :=
  OpProg.wpUnder_mono h fun r s => himp r.1 r.2 s

theorem wpUnder_and {tx : Tx α} (h : wpUnder eff may tx post journal s)
    (h' : wpUnder eff may tx post' journal s) :
    wpUnder eff may tx (fun r journal s => post r journal s ∧ post' r journal s) journal s :=
  OpProg.wpUnder_and h h'

variable (may) in
theorem wp.under {tx : Tx α} (h : wp eff ok tx post journal s) :
    wpUnder eff may tx post journal s :=
  OpProg.wpUnder_mono (OpProg.wp.under h) fun _ _ => fun ⟨_, h⟩ => h

theorem wpUnder_invariant {inv : S → Prop}
    (keeps : ∀ op s, inv s → may op none s → inv (eff op s).2) (tx : Tx α) (hs : inv s) :
    wpUnder eff may tx (fun _ _ s' => inv s') journal s :=
  OpProg.wpUnder_invariant keeps (tx journal) hs

/-- After an error the rest of a transaction does not run. -/
theorem wpUnder_bind {tx : Tx α} {f : α → Tx β} {post : Except AnyError β → TxJournal → S → Prop} :
    wpUnder eff may (tx >>= f) post journal s ↔
      wpUnder eff may tx (fun r journal s =>
        match r with
        | .ok a => wpUnder eff may (f a) post journal s
        | .error e => post (.error e) journal s) journal s := by
  unfold wpUnder
  rw [bind_apply, OpProg.wpUnder_bind]
  constructor
  · intro h
    apply OpProg.wpUnder_mono h
    intro r s
    obtain ⟨r, journal⟩ := r
    cases r <;> exact id
  · intro h
    apply OpProg.wpUnder_mono h
    intro r s
    obtain ⟨r, journal⟩ := r
    cases r <;> exact id

theorem wpUnder_perform_bind (op : MapOp) (f : op.Res → Tx β)
    {post : Except AnyError β → TxJournal → S → Prop} :
    wpUnder eff may (perform op >>= f) post journal s ↔
      (may op none s → wpUnder eff may (f (eff op s).1) post journal (eff op s).2) ∧
        ∀ e, may op (some e) s → post (.error e) journal s := Iff.rfl

theorem wpUnder_journaled_bind (g : TxJournal → TxJournal) (f : Unit → Tx β)
    {post : Except AnyError β → TxJournal → S → Prop} :
    wpUnder eff may (journaled g >>= f) post journal s ↔
      wpUnder eff may (f ()) post (g journal) s := Iff.rfl

theorem wpUnder_context (text : String) (tx : Tx α) :
    wpUnder eff may (tx.context text) post journal s ↔
      wpUnder eff may tx (fun r => post (r.mapError (·.context text))) journal s := by
  unfold wpUnder context
  change OpProg.wpUnder eff may (tx journal >>= fun r => .done (r.1.mapError _, r.2)) _ s ↔ _
  rw [OpProg.wpUnder_bind]
  simp only [OpProg.wpUnder_done]

end VmWatcher.Tx

namespace VmWatcher

open OpProg

/-! ### The playback of an install -/

/-- What `rollbackInstall` goes on with once the new policy is out of the way. -/
def takeBack (rec : InstallRecord) (report : RollbackReport) : Prog RollbackReport := do
  let (report, cleared) ← clearNewState rec report
  let (report, restored) ← restoreDisplaced rec report
  return report.close (cleared && restored)

theorem rollbackInstall_armed {rec : InstallRecord} (armed : rec.armed = true)
    (report : RollbackReport) :
    rollbackInstall rec report = .call (.disarmPolicy rec.key) fun
      | .error e => .done (report.attempt.fail (.flow rec.key)
          "disarm new policy (kept new policy + state)" e)
      | .ok () => takeBack rec report.attempt := by
  unfold rollbackInstall disarmNew
  rw [if_pos armed]
  refine congrArg (OpProg.call _) (funext fun r => ?_)
  cases r <;> rfl

theorem rollbackInstall_unarmed {rec : InstallRecord} (unarmed : ¬ rec.armed = true)
    (report : RollbackReport) : rollbackInstall rec report = takeBack rec report.attempt := by
  unfold rollbackInstall disarmNew
  rw [if_neg unarmed]
  rfl

section TakeBack

variable {S : Type} {eff : (op : MapOp) → S → op.Res × S} {s : S}
variable {rec : InstallRecord} {report : RollbackReport}

theorem wp_takeBack {ok : MapOp → S → Prop}
    {post : List (Event MapOp AnyError S) → RollbackReport → S → Prop}
    (h : wp eff ok (clearNewState rec report) (fun evs r s =>
      wp eff ok (restoreDisplaced rec r.1)
        (fun evs' r' s => post (evs ++ evs') (r'.1.close (r.2 && r'.2)) s) s) s) :
    wp eff ok (takeBack rec report) post s := by
  unfold takeBack
  rw [wp_bind]
  apply wp_mono h
  intro evs r s h'
  rw [wp_bind]
  apply wp_mono h'
  intro evs' r' s h''
  change post (evs ++ (evs' ++ [])) _ s
  rwa [List.append_nil]

theorem wpUnder_takeBack {may : MapOp → Option AnyError → S → Prop}
    {post : RollbackReport → S → Prop}
    (h : wpUnder eff may (clearNewState rec report) (fun r s =>
      wpUnder eff may (restoreDisplaced rec r.1) (fun r' s => post (r'.1.close (r.2 && r'.2)) s) s)
      s) :
    wpUnder eff may (takeBack rec report) post s := by
  unfold takeBack
  rw [wpUnder_bind]
  apply wpUnder_mono h
  intro r s h'
  rw [wpUnder_bind]
  exact wpUnder_mono h' fun r' s h'' => h''

end TakeBack

end VmWatcher

import VmWatcher.Daemon.Proofs.Handlers

/-!
# The error of a transaction

A transaction makes up no errors: the one it ends in is the error of an operation that
failed in it, with context in front (`Blames`). So it succeeds when nothing fails, and a file
that passes the checks can always be put in force (`reloadFile_runs`).
-/

namespace VmWatcher

open OpProg

variable {S α β : Type} {eff : (op : MapOp) → S → op.Res × S}

/-- One of the operations failed with what the error goes back to. -/
def CausedIn (evs : List (Event MapOp AnyError S)) (e : AnyError) : Prop :=
  ∃ ev ∈ evs, ∃ cause, ev.error = some cause ∧ cause.chain <:+ e.chain

namespace CausedIn

variable {evs evs' : List (Event MapOp AnyError S)} {e : AnyError}

theorem append_left (h : CausedIn evs e) : CausedIn (evs ++ evs') e := by
  obtain ⟨ev, mem, caused⟩ := h
  exact ⟨ev, List.mem_append_left _ mem, caused⟩

theorem append_right (h : CausedIn evs e) : CausedIn (evs' ++ evs) e := by
  obtain ⟨ev, mem, caused⟩ := h
  exact ⟨ev, List.mem_append_right _ mem, caused⟩

theorem context (h : CausedIn evs e) (text : String) : CausedIn evs (e.context text) := by
  obtain ⟨ev, mem, cause, failed, suffix⟩ := h
  exact ⟨ev, mem, cause, failed, suffix.trans (List.suffix_cons _ _)⟩

end CausedIn

namespace Tx

variable (eff) in
/-- Every error of the transaction is that of an operation. -/
structure Blames (tx : Tx α) : Prop where
  caused {journal journal' : TxJournal} {s s' : S} {evs : List (Event MapOp AnyError S)}
    {e : AnyError} : Runs eff (tx journal) s evs (.error e, journal') s' → CausedIn evs e

theorem blames_pure (a : α) : Blames eff (pure a) where
  caused run := nomatch run

theorem blames_journaled (f : TxJournal → TxJournal) : Blames eff (journaled f) where
  caused run := nomatch run

theorem blames_perform (op : MapOp) : Blames eff (perform op) where
  caused run := by
    cases run with
    | ok done => cases done
    | fail cause done =>
      cases done
      exact ⟨_, List.mem_singleton.mpr rfl, _, rfl, List.suffix_refl _⟩

theorem Blames.bind {tx : Tx α} {f : α → Tx β} (h : Blames eff tx) (hf : ∀ a, Blames eff (f a)) :
    Blames eff (tx >>= f) := by
  constructor
  intro journal journal' s s' evs e run
  rw [bind_apply] at run
  obtain ⟨evs₁, ⟨r, journal₁⟩, s₁, evs₂, first, rest, rfl⟩ := run.bind_inv
  cases r with
  | ok a => exact ((hf a).caused rest).append_right
  | error e =>
    cases rest
    exact (h.caused first).append_left

theorem Blames.context {tx : Tx α} (h : Blames eff tx) (text : String) :
    Blames eff (tx.context text) := by
  constructor
  intro journal journal' s s' evs e run
  obtain ⟨evs₁, ⟨r, journal₁⟩, s₁, evs₂, first, rest, rfl⟩ := OpProg.Runs.bind_inv run
  cases r with
  | ok a => cases rest
  | error e =>
    cases rest
    exact ((h.caused first).context text).append_left

end Tx

open Tx

/-! ### The transactions of the engine -/

theorem blames_disarmDisplaced (key : LimitKey) (policy : LimitPolicy) (old : Option LimitPolicy) :
    Blames eff (disarmDisplaced key policy old) := by
  cases old with
  | none => exact blames_pure ()
  | some old =>
    refine (blames_perform _).bind fun _ => (blames_journaled _).bind fun _ => ?_
    split
    · exact blames_perform _
    · exact blames_pure ()

theorem blames_installLimit (key : LimitKey) (policy : LimitPolicy) :
    Blames eff (installLimit key policy) :=
  (blames_perform _).bind fun old => (blames_journaled _).bind fun _ =>
    (blames_disarmDisplaced key policy old).bind fun _ => (blames_perform _).bind fun _ =>
      (blames_journaled _).bind fun _ => (blames_perform _).bind fun _ => blames_journaled _

theorem blames_removeLimit (key : LimitKey) : Blames eff (removeLimit key) := by
  refine (blames_perform _).bind fun old => ?_
  cases old with
  | none => exact blames_pure ()
  | some old =>
    exact (blames_journaled _).bind fun _ => (blames_perform _).bind fun _ =>
      (blames_journaled _).bind fun _ => (blames_perform _).bind fun _ => blames_perform _

theorem blames_removePass (actions : List LimitAction) : Blames eff (removePass actions) := by
  induction actions with
  | nil => exact blames_pure ()
  | cons action actions ih =>
    cases action with
    | remove ipv4 direction => exact ((blames_removeLimit _).context _).bind fun _ => ih
    | install _ _ _ _ _ _ => exact ih

theorem blames_installPass (actions : List LimitAction) : Blames eff (installPass actions) := by
  induction actions with
  | nil => exact blames_pure ()
  | cons action actions ih =>
    cases action with
    | remove _ _ => exact ih
    | install _ _ _ _ _ _ => exact ((blames_installLimit _ _).context _).bind fun _ => ih

theorem blames_applyWhitelistAdditions (cs : List Cidr) :
    Blames eff (applyWhitelistAdditions cs) := by
  induction cs with
  | nil => exact blames_pure ()
  | cons c cs ih => exact (blames_perform _).bind fun _ => (blames_journaled _).bind fun _ => ih

theorem blames_applyWhitelistRemovals (cs : List Cidr) :
    Blames eff (applyWhitelistRemovals cs) := by
  induction cs with
  | nil => exact blames_pure ()
  | cons c cs ih => exact (blames_perform _).bind fun _ => (blames_journaled _).bind fun _ => ih

theorem blames_applyReloadSteps (actions : List LimitAction) (oldPrefixes newPrefixes : List Cidr) :
    Blames eff (applyReloadSteps actions oldPrefixes newPrefixes) :=
  ((blames_applyWhitelistAdditions _).context _).bind fun _ =>
    ((blames_removePass actions).bind fun _ => blames_installPass actions).bind fun _ =>
      (blames_applyWhitelistRemovals _).context _

/-- The error that a journal is played back for is that of an operation. -/
theorem Tx.Blames.transact {tx : Tx Unit} (h : Blames eff tx) {s s' : S}
    {evs : List (Event MapOp AnyError S)} {e : AnyError} {report : RollbackReport}
    (run : Runs eff (transact tx) s evs (.error (e, report)) s') : CausedIn evs e := by
  obtain ⟨evs₁, r, journal, s₁, first, ⟨-, done, -⟩ | ⟨_, evs₂, _, rfl, same, -, rfl⟩⟩ :=
    transact_inv run
  · cases done
  · cases same
    exact (h.caused first).append_left

/-- Where nothing fails the transaction succeeds. -/
theorem Tx.Blames.runs {tx : Tx Unit} (h : Blames eff tx) (s : S) :
    ∃ evs s', Runs eff (VmWatcher.transact tx) s evs (.ok ()) s' := by
  obtain ⟨evs, r, s', run, obeys⟩ := exists_obeying (fun _ (e : Option AnyError) (_ : S) => e = none)
    (fun _ _ => .inl rfl) (VmWatcher.transact tx) s
  cases r with
  | ok _ => exact ⟨evs, s', run⟩
  | error failure =>
    obtain ⟨ev, mem, cause, failed, -⟩ := h.transact run
    cases (obeys.forall ev mem).symm.trans failed

namespace Daemon

variable {p : Parsers} {path : String} {d : Daemon}

/-- A new configuration that passes the checks is put in force when no map operation fails. -/
theorem reloadFile_runs {env : ReloadInputs} {bytes : ByteArray} {cfg : ValidatedConfig}
    {plan : ReloadPlan} (offers : Offers p path env d bytes cfg) (plans : Plans env d cfg plan)
    (s : S) : ∃ evs s', Runs eff (d.reloadFile p path env) s evs
      (d.applied env bytes cfg plan, true) s' := by
  obtain ⟨evs, s', transaction⟩ := (@blames_applyReloadSteps S eff plan.actions
    env.oldPrefixes env.newPrefixes).runs s
  have commit : Runs eff (applyAndCommit d.engine env.oldPrefixes env.newPrefixes plan cfg) s
      (evs ++ []) (⟨d.engine.limiter.commitReload plan, cfg, d.engine.generation + 1⟩, .ok ()) s' :=
    transaction.bind (.done _ _)
  let stamped : Daemon := { d with lastReloadAt := formatUnixUtc env.nowUnix }
  have apply : Runs eff (stamped.applyConfig env cfg) s (evs ++ [] ++ [])
      (stamped.committed cfg plan, .ok ()) s' := by
    unfold applyConfig
    simp only [stamped, plans.checked, plans.planned]
    exact commit.bind (.done _ _)
  unfold reloadFile
  simp only [offers.read, if_neg offers.differs, offers.parsed]
  exact ⟨_, s', apply.bind (.done _ _)⟩

end Daemon

end VmWatcher

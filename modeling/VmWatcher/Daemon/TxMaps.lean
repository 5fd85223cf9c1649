import VmWatcher.Ebpf.Maps
import VmWatcher.Misc.OpProg

/-!
# Transactional limit-map updates (`vm-bandwidth/src/txmaps.rs`)

The map operations, the two-step protocols that install and remove a limit under a
journal, and the playback of the journal. A `Prog` may see any of its operations
fail; a `Tx` also keeps the journal and stops at the first error, as `?` does.
-/

namespace VmWatcher

/-- An `anyhow::Error`: its contexts, outermost first. -/
structure AnyError where
  chain : List String
  deriving DecidableEq, Repr

namespace AnyError

def context (e : AnyError) (text : String) : AnyError := ⟨text :: e.chain⟩

/-- How `{error:#}` prints. -/
def display (e : AnyError) : String := ": ".intercalate e.chain

end AnyError

/-- What a failed rollback step was restoring. -/
inductive RollbackTarget where
  | flow (key : LimitKey)
  | pref (cidr : Cidr)
  deriving DecidableEq, Repr

/-- The operations of `LimitMaps` and `WhitelistOps`. -/
inductive MapOp where
  | getPolicy (key : LimitKey)
  | armPolicy (key : LimitKey) (policy : LimitPolicy)
  | disarmPolicy (key : LimitKey)
  | writeFreshState (key : LimitKey) (algorithm : UInt32)
  | clearState (key : LimitKey) (algorithm : UInt32)
  | clearPolicer (key : LimitKey)
  | wlInsert (cidr : Cidr)
  | wlRemove (cidr : Cidr)
  deriving DecidableEq, Repr

namespace MapOp

/-- What an operation returns when it succeeds. -/
@[reducible] def Res : MapOp → Type
  | getPolicy _ => Option LimitPolicy
  | _ => Unit

/-- The operations as `EngineMaps` and `EngineWhitelist` carry them out: removing an
absent entry counts as success. -/
def exec : (op : MapOp) → Dataplane → op.Res × Dataplane
  | getPolicy key, d => (d.policies key, d)
  | armPolicy key policy, d => ((), { d with policies := d.policies.insert key policy })
  | disarmPolicy key, d => ((), { d with policies := d.policies.remove key })
  | writeFreshState key algorithm, d =>
      if algorithm = algoSlidingWindowLog then ((), { d with swlLog := d.swlLog.insert key {} })
      else ((), { d with limitState := d.limitState.insert key {} })
  | clearState key algorithm, d =>
      if algorithm = algoSlidingWindowLog then ((), { d with swlLog := d.swlLog.remove key })
      else ((), { d with limitState := d.limitState.remove key })
  | clearPolicer key, d => ((), { d with policerStats := d.policerStats.remove key })
  | wlInsert cidr, d => ((), { d with monitoredIps := Function.update d.monitoredIps cidr true })
  | wlRemove cidr, d => ((), { d with monitoredIps := Function.update d.monitoredIps cidr false })

/-- The flow or prefix an operation works on, in the terms of a rollback report. -/
def target : MapOp → RollbackTarget
  | getPolicy key | armPolicy key _ | disarmPolicy key | writeFreshState key _
  | clearState key _ | clearPolicer key => .flow key
  | wlInsert cidr | wlRemove cidr => .pref cidr

end MapOp

/-- A program over the map operations. -/
abbrev Prog (α : Type) := OpProg MapOp MapOp.Res AnyError α

/-- The program of one operation. -/
abbrev attempt (op : MapOp) : Prog (Except AnyError op.Res) := OpProg.attempt op

/-- One journaled install. Every progress flag is set only after the corresponding
map operation returned success. -/
structure InstallRecord where
  key : LimitKey
  old : Option LimitPolicy
  oldDisarmed : Bool := false
  newAlgorithm : Option UInt32 := none
  armed : Bool := false
  deriving DecidableEq, Repr

/-- One journaled remove of a previously armed policy. -/
structure RemoveRecord where
  key : LimitKey
  old : LimitPolicy
  disarmed : Bool := false
  deriving DecidableEq, Repr

/-- Journal of executed operations. The lists are kept newest first, the order in
which the playback reads them. -/
structure TxJournal where
  installs : List InstallRecord := []
  removes : List RemoveRecord := []
  wlAdded : List Cidr := []
  wlRemoved : List Cidr := []
  deriving DecidableEq, Repr

/-- One failed rollback step. -/
structure RollbackFailure where
  target : RollbackTarget
  op : String
  error : String
  deriving DecidableEq, Repr

/-- Structured outcome of a rollback playback. -/
structure RollbackReport where
  attempted : ℕ := 0
  succeeded : ℕ := 0
  failures : List RollbackFailure := []
  dataplaneConsistent : Bool := false
  deriving DecidableEq, Repr

/-- Code that returns a `Result` and writes the journal as it goes. -/
def Tx (α : Type) := TxJournal → Prog (Except AnyError α × TxJournal)

namespace Tx

variable {α β : Type}

protected def pure (a : α) : Tx α := fun journal => .done (.ok a, journal)

/-- An error stops the code; the journal stays as it is. -/
protected def bind (x : Tx α) (f : α → Tx β) : Tx β := fun journal =>
  (x journal).bind fun
    | (.ok a, journal) => f a journal
    | (.error e, journal) => .done (.error e, journal)

instance : Monad Tx where
  pure := Tx.pure
  bind := Tx.bind

/-- Call an operation and pass its error on. -/
def perform (op : MapOp) : Tx op.Res := fun journal => .call op fun r => .done (r, journal)

/-- Write the journal. -/
def journaled (f : TxJournal → TxJournal) : Tx Unit := fun journal => .done (.ok (), f journal)

/-- `with_context`. -/
def context (text : String) (x : Tx α) : Tx α := fun journal =>
  (x journal).bind fun r => .done (r.1.mapError (·.context text), r.2)

end Tx

namespace TxJournal

def pushInstall (rec : InstallRecord) (journal : TxJournal) : TxJournal :=
  { journal with installs := rec :: journal.installs }

def pushRemove (rec : RemoveRecord) (journal : TxJournal) : TxJournal :=
  { journal with removes := rec :: journal.removes }

/-- Write to `journal.installs.last_mut()`. -/
def setInstall (f : InstallRecord → InstallRecord) (journal : TxJournal) : TxJournal :=
  { journal with installs := journal.installs.modifyHead f }

/-- Write to `journal.removes.last_mut()`. -/
def setRemove (f : RemoveRecord → RemoveRecord) (journal : TxJournal) : TxJournal :=
  { journal with removes := journal.removes.modifyHead f }

end TxJournal

open Tx in
/-- The part of `install_limit` that takes down the displaced policy, if there is one. -/
def disarmDisplaced (key : LimitKey) (policy : LimitPolicy) : Option LimitPolicy → Tx Unit
  | none => pure ()
  | some old => do
      perform (.disarmPolicy key)
      journaled (·.setInstall ({ · with oldDisarmed := true }))
      if old.algorithm ≠ policy.algorithm then
        perform (.clearState key old.algorithm)

open Tx in
/-- `install_limit`: disarm the displaced policy, clear foreign artifacts, write fresh
state, arm last. -/
def installLimit (key : LimitKey) (policy : LimitPolicy) : Tx Unit := do
  let old ← perform (.getPolicy key)
  journaled (·.pushInstall { key := key, old := old })
  disarmDisplaced key policy old
  perform (.writeFreshState key policy.algorithm)
  journaled (·.setInstall ({ · with newAlgorithm := some policy.algorithm }))
  perform (.armPolicy key policy)
  journaled (·.setInstall ({ · with armed := true }))

open Tx in
/-- `remove_limit`: disarm first, then clean up artifacts. -/
def removeLimit (key : LimitKey) : Tx Unit := do
  match ← perform (.getPolicy key) with
  | none => pure ()
  | some old => do
      journaled (·.pushRemove { key := key, old := old })
      perform (.disarmPolicy key)
      journaled (·.setRemove ({ · with disarmed := true }))
      perform (.clearState key old.algorithm)
      perform (.clearPolicer key)

open Tx in
/-- `apply_whitelist_additions`. -/
def applyWhitelistAdditions : List Cidr → Tx Unit
  | [] => pure ()
  | c :: additions => do
      perform (.wlInsert c)
      journaled fun journal => { journal with wlAdded := c :: journal.wlAdded }
      applyWhitelistAdditions additions

open Tx in
/-- `apply_whitelist_removals`. -/
def applyWhitelistRemovals : List Cidr → Tx Unit
  | [] => pure ()
  | c :: removals => do
      perform (.wlRemove c)
      journaled fun journal => { journal with wlRemoved := c :: journal.wlRemoved }
      applyWhitelistRemovals removals

namespace RollbackReport

/-- `fail`. -/
def fail (report : RollbackReport) (target : RollbackTarget) (op : String) (e : AnyError) :
    RollbackReport :=
  { report with failures := report.failures ++ [⟨target, op, e.display⟩] }

def attempt (report : RollbackReport) : RollbackReport :=
  { report with attempted := report.attempted + 1 }

def success (report : RollbackReport) : RollbackReport :=
  { report with succeeded := report.succeeded + 1 }

/-- Count the record as rolled back when every step of it was. -/
def close (report : RollbackReport) (ok : Bool) : RollbackReport :=
  if ok then report.success else report

end RollbackReport

/-- Fresh state first, arming last: how the playback restores an old policy. `rearm`
names the arming step in the report. The answer says whether both steps succeeded. -/
def restorePolicy (key : LimitKey) (old : LimitPolicy) (rearm : String)
    (report : RollbackReport) : Prog (RollbackReport × Bool) := do
  match ← attempt (.writeFreshState key old.algorithm) with
  | .error e => return (report.fail (.flow key) "restore state (flow stays unarmed)" e, false)
  | .ok () =>
    match ← attempt (.armPolicy key old) with
    | .error e => return (report.fail (.flow key) rearm e, false)
    | .ok () => return (report, true)

/-- Clear the artifact the install wrote, if it got that far. -/
def clearNewState (rec : InstallRecord) (report : RollbackReport) :
    Prog (RollbackReport × Bool) := do
  match rec.newAlgorithm with
  | none => return (report, true)
  | some algorithm =>
    match ← attempt (.clearState rec.key algorithm) with
    | .error e => return (report.fail (.flow rec.key) "clear new state" e, false)
    | .ok () => return (report, true)

/-- Restore the displaced policy, unless the forward disarm never succeeded: then the
old pair may still be live and is left untouched. -/
def restoreDisplaced (rec : InstallRecord) (report : RollbackReport) :
    Prog (RollbackReport × Bool) := do
  match rec.old with
  | none => return (report, true)
  | some old =>
    if rec.oldDisarmed then restorePolicy rec.key old "re-arm old policy" report
    else return (report, true)

/-- Disarm the new policy if it was armed. -/
def disarmNew (rec : InstallRecord) : Prog (Except AnyError Unit) :=
  if rec.armed then attempt (.disarmPolicy rec.key) else pure (.ok ())

/-- The playback of one install. A new policy that cannot be disarmed keeps its state,
and the record ends there. -/
def rollbackInstall (rec : InstallRecord) (report : RollbackReport) : Prog RollbackReport := do
  match ← disarmNew rec with
  | .error e =>
    return report.attempt.fail (.flow rec.key) "disarm new policy (kept new policy + state)" e
  | .ok () =>
    let (report, cleared) ← clearNewState rec report.attempt
    let (report, restored) ← restoreDisplaced rec report
    return report.close (cleared && restored)

/-- The playback of one remove. -/
def rollbackRemove (rec : RemoveRecord) (report : RollbackReport) : Prog RollbackReport := do
  if rec.disarmed then
    let (report, restored) ← restorePolicy rec.key rec.old "re-arm removed policy" report.attempt
    return report.close restored
  else
    return report.attempt.success

/-- The playback of one whitelist removal. -/
def rollbackWlRemoved (c : Cidr) (report : RollbackReport) : Prog RollbackReport := do
  match ← attempt (.wlInsert c) with
  | .error e => return report.attempt.fail (.pref c) "re-add whitelist prefix" e
  | .ok () => return report.attempt.success

/-- The playback of one whitelist addition. -/
def rollbackWlAdded (c : Cidr) (report : RollbackReport) : Prog RollbackReport := do
  match ← attempt (.wlRemove c) with
  | .error e => return report.attempt.fail (.pref c) "remove whitelist prefix" e
  | .ok () => return report.attempt.success

/-- Play back a list of records, newest first. -/
def playBack {ρ : Type} (rollback : ρ → RollbackReport → Prog RollbackReport) :
    List ρ → RollbackReport → Prog RollbackReport
  | [], report => pure report
  | rec :: recs, report => do
      let report ← rollback rec report
      playBack rollback recs report

/-- `rollback_journal`: installs, removes, whitelist removals and whitelist additions,
each newest first. -/
def rollbackJournal (journal : TxJournal) : Prog RollbackReport := do
  let report ← playBack rollbackInstall journal.installs {}
  let report ← playBack rollbackRemove journal.removes report
  let report ← playBack rollbackWlRemoved journal.wlRemoved report
  let report ← playBack rollbackWlAdded journal.wlAdded report
  return { report with dataplaneConsistent := report.failures.isEmpty }

end VmWatcher

import VmWatcher.Core.Limiter
import VmWatcher.Daemon.TxMaps

/-!
# Ticks and reloads against the maps (`vm-bandwidth/src/daemon.rs`)

How the engine carries out limit actions: a reload in one all-or-nothing transaction,
the actions of a tick each in a transaction of its own. Hash sets of prefixes are
lists in the order their iterator yields them.
-/

namespace VmWatcher

namespace LimitAction

/-- The limit-map key an action works on. -/
def key (action : LimitAction) : LimitKey := ⟨action.flow.1, action.flow.2⟩

def isRemove : LimitAction → Bool
  | remove _ _ => true
  | install _ _ _ _ _ _ => false

end LimitAction

/-- Pass 1 of `run_limit_actions`. -/
def removePass : List LimitAction → Tx Unit
  | [] => pure ()
  | .remove ipv4 direction :: actions => do
      Tx.context s!"removing limit policy for {ipv4Display ipv4} dir={direction}"
        (removeLimit ⟨ipv4, direction⟩)
      removePass actions
  | .install _ _ _ _ _ _ :: actions => removePass actions

/-- Pass 2 of `run_limit_actions`. -/
def installPass : List LimitAction → Tx Unit
  | [] => pure ()
  | .remove _ _ :: actions => installPass actions
  | .install ipv4 direction rateBps burstBytes algorithm windowNs :: actions => do
      let policy : LimitPolicy := { enabled := 1, algorithm, rateBps, burstBytes, windowNs }
      Tx.context s!"installing limit policy for {ipv4Display ipv4} dir={direction}"
        (installLimit ⟨ipv4, direction⟩ policy)
      installPass actions

/-- `run_limit_actions`: removes first (they free capacity), installs after. -/
def runLimitActions (actions : List LimitAction) : Tx Unit := do
  removePass actions
  installPass actions

/-- `apply_reload_steps`: whitelist additions, limit actions, whitelist removals. -/
def applyReloadSteps (actions : List LimitAction) (oldPrefixes newPrefixes : List Cidr) :
    Tx Unit := do
  let additions := newPrefixes.filter (· ∉ oldPrefixes)
  Tx.context "whitelisting new prefixes" (applyWhitelistAdditions additions)
  runLimitActions actions
  let removals := oldPrefixes.filter (· ∉ newPrefixes)
  Tx.context "dropping removed whitelist prefixes" (applyWhitelistRemovals removals)

/-- A transaction from an empty journal; on an error the journal is played back. -/
def transact (tx : Tx Unit) : Prog (Except (AnyError × RollbackReport) Unit) := do
  match ← tx {} with
  | (.ok (), _) => return .ok ()
  | (.error error, journal) =>
    let report ← rollbackJournal journal
    return .error (error, report)

/-- One tick action that could not be applied. -/
structure TickActionFailure where
  error : AnyError
  report : RollbackReport
  deriving DecidableEq, Repr

/-- One action in the loop of `apply_tick_actions`. -/
def applyTickAction (limiter : Limiter) (action : LimitAction) :
    Prog (Limiter × List TickActionFailure) := do
  match ← transact (runLimitActions [action]) with
  | .ok () => return (limiter, [])
  | .error (error, report) => return (limiter.revertFailedAction action, [⟨error, report⟩])

def applyEachTickAction (limiter : Limiter) :
    List LimitAction → Prog (Limiter × List TickActionFailure)
  | [] => pure (limiter, [])
  | action :: actions => do
      let (limiter, failures) ← applyTickAction limiter action
      let (limiter, rest) ← applyEachTickAction limiter actions
      return (limiter, failures ++ rest)

/-- `apply_tick_actions`: each action in its own transaction, removes before installs. -/
def applyTickActions (limiter : Limiter) (actions : List LimitAction) :
    Prog (Limiter × List TickActionFailure) :=
  applyEachTickAction limiter
    (actions.filter LimitAction.isRemove ++ actions.filter (!LimitAction.isRemove ·))

/-- Error payload of a reload whose dataplane apply failed. -/
structure ReloadApplyError where
  message : AnyError
  report : RollbackReport
  deriving DecidableEq, Repr

/-- The control-plane state a reload commits to. -/
structure Engine where
  limiter : Limiter
  config : ValidatedConfig
  generation : ℕ

/-- `prefix_set`: the CIDR prefixes of all configured ranges. -/
def prefixSet (cfg : ValidatedConfig) : List Cidr := cfg.ranges.flatMap fun r => r.inner.cidrs

/-- `apply_and_commit`: the control plane commits only when every map operation
succeeded. `newPrefixes` lists `prefixSet newCfg`. -/
def applyAndCommit (engine : Engine) (oldPrefixes newPrefixes : List Cidr) (plan : ReloadPlan)
    (newCfg : ValidatedConfig) : Prog (Engine × Except ReloadApplyError Unit) := do
  match ← transact (applyReloadSteps plan.actions oldPrefixes newPrefixes) with
  | .error (e, report) => return (engine, .error ⟨e, report⟩)
  | .ok () =>
    return ({ limiter := engine.limiter.commitReload plan
              config := newCfg
              generation := engine.generation + 1 }, .ok ())

end VmWatcher

import VmWatcher.Core.Config
import VmWatcher.Core.Window
import VmWatcher.Misc.Table
import Mathlib.Data.List.Sort

/-!
# NORMAL / LIMITED lifecycle (`vm-bandwidth-core/src/limiter.rs`)

The limiter is pure: it owns the rolling windows, evaluates thresholds, tracks LIMITED
expiry and emits the actions the runtime must carry out. Two things are left open.
Loops over hash maps take the order they visit the keys in as an argument, and the
comparison of a window's float average with the trigger line is the parameter
`reaches`.
-/

namespace VmWatcher

/-- Cumulative per-IP byte counters, as reported by the collector. -/
structure IpTotals where
  rxBytes : ℕ := 0
  txBytes : ℕ := 0
  rxPackets : ℕ := 0
  txPackets : ℕ := 0
  deriving DecidableEq, Repr

/-- (ipv4, direction) identifies one limiter and one rolling window. -/
abbrev FlowKey := UInt32 × UInt8

/-- What the runtime must do to the eBPF maps. -/
inductive LimitAction where
  | install (ipv4 : UInt32) (direction : UInt8) (rateBps burstBytes : ℕ) (algorithm : UInt32)
      (windowNs : ℕ)
  | remove (ipv4 : UInt32) (direction : UInt8)
  deriving DecidableEq, Repr

/-- The map entry that enforces a direction policy. -/
def DirPolicy.installed (p : DirPolicy) : LimitPolicy where
  enabled := 1
  algorithm := p.algorithm
  rateBps := p.limitBps
  burstBytes := p.burstBytes
  windowNs := u64SaturatingMul p.limitWindowSecs 1000000000

namespace LimitAction

def flow : LimitAction → FlowKey
  | install ipv4 direction _ _ _ _ => (ipv4, direction)
  | remove ipv4 direction => (ipv4, direction)

/-- The install of a direction policy. -/
def installOf (flow : FlowKey) (np : DirPolicy) : LimitAction :=
  install flow.1 flow.2 np.limitBps np.burstBytes np.algorithm
    (u64SaturatingMul np.limitWindowSecs 1000000000)

/-- The policy entry an action leaves armed, if any. -/
def policy : LimitAction → Option LimitPolicy
  | install _ _ rateBps burstBytes algorithm windowNs =>
      some { enabled := 1, algorithm, rateBps, burstBytes, windowNs }
  | remove _ _ => none

@[simp] theorem flow_installOf (flow : FlowKey) (np : DirPolicy) :
    (installOf flow np).flow = flow := rfl

@[simp] theorem policy_installOf (flow : FlowKey) (np : DirPolicy) :
    (installOf flow np).policy = some np.installed := rfl

end LimitAction

inductive Phase where
  | normal
  | limited
  deriving DecidableEq, Repr

/-- Per-direction limiter state. -/
structure DirState where
  phase : Phase := .normal
  limitedSince : ℕ := 0
  limitedUntil : ℕ := 0
  applied : Option DirPolicy := none
  deriving DecidableEq, Repr

/-- A configured range and its base (pre-override) effective policy. -/
structure PolicyRange where
  start : UInt32
  stop : UInt32
  policy : EffectivePolicy
  deriving DecidableEq, Repr

/-- The effective policy of an address: override first, then the containing range. -/
def lookup (ranges : List PolicyRange) (overrides : Table UInt32 EffectivePolicy)
    (ip : UInt32) : Option EffectivePolicy :=
  match overrides ip with
  | some p => some p
  | none =>
    ((ranges.find? fun r => r.start ≤ ip && ip ≤ r.stop).map PolicyRange.policy).filter
      fun p => !p.isEmpty

/-- The policy a flow resolves to. -/
def lookupDir (ranges : List PolicyRange) (overrides : Table UInt32 EffectivePolicy)
    (flow : FlowKey) : Option DirPolicy :=
  (lookup ranges overrides flow.1).bind fun p => p.dir flow.2

structure Limiter where
  tickSecs : ℕ
  ranges : List PolicyRange
  overrides : Table UInt32 EffectivePolicy
  windows : Table FlowKey RollingWindow
  states : Table FlowKey DirState
  prevTotals : Table UInt32 IpTotals
  /-- Pre-expiry state of every flow whose LIMITED phase ended in the latest tick. -/
  expired : Table FlowKey DirState

/-- A reload change plan, consumed by `commitReload` once every action was applied. -/
structure ReloadPlan where
  actions : List LimitAction
  newRanges : List PolicyRange
  newOverrides : Table UInt32 EffectivePolicy
  flowResets : List FlowKey
  flowUpdates : List (FlowKey × ℕ × DirPolicy)

/-- The overrides of one range, resolved and added to the index. -/
def indexOverrides (vr : ValidatedRange) :
    List (UInt32 × PolicyFields) → Table UInt32 EffectivePolicy →
      Except String (Table UInt32 EffectivePolicy)
  | [], overrides => pure overrides
  | (ip, fields) :: rest, overrides => do
      let eff ← resolve vr.policy (some fields) s!"{vr.inner.name} ip {ip}"
      indexOverrides vr rest (overrides.insert ip eff)

/-- The loop of `build_index` over the ranges. -/
def indexRanges : List ValidatedRange → List PolicyRange → Table UInt32 EffectivePolicy →
    Except String (List PolicyRange × Table UInt32 EffectivePolicy)
  | [], ranges, overrides => pure (ranges, overrides)
  | vr :: rest, ranges, overrides => do
      let base ← resolve vr.policy none vr.inner.name
      let overrides ← indexOverrides vr vr.overrides overrides
      indexRanges rest (ranges ++ [⟨vr.inner.start, vr.inner.stop, base⟩]) overrides

/-- `build_index`: the policy index of a validated config, ranges sorted by start. -/
def buildIndex (cfg : ValidatedConfig) :
    Except String (List PolicyRange × Table UInt32 EffectivePolicy) := do
  let (ranges, overrides) ← indexRanges cfg.ranges [] Table.empty
  return (ranges.insertionSort fun a b => a.start ≤ b.start, overrides)

namespace Limiter

def new (tickSecs : ℕ) : Limiter :=
  ⟨max tickSecs 1, [], Table.empty, Table.empty, Table.empty, Table.empty, Table.empty⟩

/-- `effective_policy`. -/
def effectivePolicy (l : Limiter) (ip : UInt32) : Option EffectivePolicy :=
  lookup l.ranges l.overrides ip

/-- The policy a flow resolves to under the index in force. -/
def dirPolicy (l : Limiter) (flow : FlowKey) : Option DirPolicy :=
  lookupDir l.ranges l.overrides flow

/-- The flow is LIMITED. -/
def Limited (l : Limiter) (flow : FlowKey) : Prop :=
  ∃ s, l.states flow = some s ∧ s.phase = .limited

/-! ### Hot reload -/

/-- What the loop of `plan_reload` collects. -/
structure PlanAcc where
  removes : List LimitAction := []
  installs : List LimitAction := []
  flowResets : List FlowKey := []
  flowUpdates : List (FlowKey × ℕ × DirPolicy) := []

/-- Rate, burst, algorithm or window differ, so the limit is installed anew. -/
def reinstalls (np applied : DirPolicy) : Bool :=
  np.limitBps ≠ applied.limitBps || np.burstBytes ≠ applied.burstBytes ||
    np.algorithm ≠ applied.algorithm || np.limitWindowSecs ≠ applied.limitWindowSecs

/-- One LIMITED flow in the loop of `plan_reload`. -/
def planFlow (newRanges : List PolicyRange) (newOverrides : Table UInt32 EffectivePolicy)
    (now : ℕ) (l : Limiter) (acc : PlanAcc) (flow : FlowKey) : PlanAcc :=
  match l.states flow with
  | none => acc
  | some state =>
    match state.applied with
    | none => acc
    | some applied =>
      let drop : PlanAcc :=
        { acc with
          removes := acc.removes ++ [.remove flow.1 flow.2]
          flowResets := acc.flowResets ++ [flow] }
      match lookupDir newRanges newOverrides flow with
      | none => drop
      | some np =>
        -- the duration is re-anchored to the original start
        let limitedUntil := u64SaturatingAdd state.limitedSince np.limitDurationSecs
        if limitedUntil ≤ now then drop
        else
          { acc with
            installs :=
              if reinstalls np applied then acc.installs ++ [.installOf flow np] else acc.installs
            flowUpdates := acc.flowUpdates ++ [(flow, limitedUntil, np)] }

/-- `plan_reload`, visiting the LIMITED flows in the given order. -/
def planReload (l : Limiter) (cfg : ValidatedConfig) (now : ℕ) (limited : List FlowKey) :
    Except String ReloadPlan := do
  let (newRanges, newOverrides) ← buildIndex cfg
  let acc := limited.foldl (planFlow newRanges newOverrides now l) {}
  return {
    actions := acc.removes ++ acc.installs
    newRanges, newOverrides
    flowResets := acc.flowResets
    flowUpdates := acc.flowUpdates }

/-- A LIMITED flow going back to NORMAL in `commit_reload`. -/
def resetFlow (l : Limiter) (flow : FlowKey) : Limiter :=
  { l with
    states := fun f => if f = flow then (l.states f).map fun _ => {} else l.states f
    windows := fun f => if f = flow then (l.windows f).map RollingWindow.reset else l.windows f }

/-- A LIMITED flow staying limited in `commit_reload`. -/
def updateFlow (l : Limiter) (update : FlowKey × ℕ × DirPolicy) : Limiter :=
  { l with
    states := fun f =>
      if f = update.1 then
        (l.states f).map ({ · with limitedUntil := update.2.1, applied := some update.2.2 })
      else l.states f }

/-- `windows.retain`: windows whose flow has no policy are dropped, and a changed window
length restarts accumulation. -/
def retainWindow (l : Limiter) (flow : FlowKey) (w : RollingWindow) : Option RollingWindow :=
  (l.dirPolicy flow).map fun np =>
    if np.windowSecs ≠ w.windowSecs then w.resize np.windowSecs l.tickSecs else w

/-- The last part of `commit_reload`: windows and NORMAL states of flows without a
policy are dropped. -/
def retain (l : Limiter) : Limiter :=
  { l with
    windows := fun flow => (l.windows flow).bind (l.retainWindow flow)
    states := l.states.retain fun flow s => s.phase = .limited || (l.dirPolicy flow).isSome }

/-- The first part of `commit_reload`: the new index, and the baselines it covers. -/
def switchIndex (l : Limiter) (plan : ReloadPlan) : Limiter :=
  { l with
    ranges := plan.newRanges
    overrides := plan.newOverrides
    prevTotals := l.prevTotals.retain fun ip _ => (lookup plan.newRanges plan.newOverrides ip).isSome }

/-- `commit_reload`. -/
def commitReload (l : Limiter) (plan : ReloadPlan) : Limiter :=
  let l := l.switchIndex plan
  let l := plan.flowResets.foldl resetFlow l
  let l := plan.flowUpdates.foldl updateFlow l
  l.retain

/-- `revert_failed_action`. -/
def revertFailedAction (l : Limiter) : LimitAction → Limiter
  | .install ipv4 direction _ _ _ _ =>
      { l with
        states := fun f =>
          if f = (ipv4, direction) then (l.states f).map fun _ => {} else l.states f }
  | .remove ipv4 direction =>
      match l.expired (ipv4, direction) with
      | none => l
      | some prev =>
          { l with
            expired := l.expired.remove (ipv4, direction)
            states := l.states.insert (ipv4, direction) prev }

/-! ### Ticks -/

variable (reaches : RollingWindow → ℕ → Bool)

/-- `eval_dir`: one direction of one address in a tick. -/
def evalDir (ip : UInt32) (dir : UInt8) (dirPolicy : Option DirPolicy) (delta now : ℕ)
    (l : Limiter) : Limiter × List LimitAction :=
  match dirPolicy with
  | none => (l, [])
  | some np =>
    let flow : FlowKey := (ip, dir)
    let window := ((l.windows flow).getD (RollingWindow.new np.windowSecs l.tickSecs)).add delta
    let state := (l.states flow).getD {}
    match state.phase with
    | .normal =>
      if window.isFull && reaches window np.triggerBps then
        ({ l with
            windows := l.windows.insert flow window
            states := l.states.insert flow {
              phase := .limited
              limitedSince := now
              limitedUntil := u64SaturatingAdd now np.limitDurationSecs
              applied := some np } },
          [.installOf flow np])
      else
        ({ l with
            windows := l.windows.insert flow window
            states := l.states.insert flow state }, [])
    | .limited =>
      if now ≥ state.limitedUntil then
        ({ l with
            windows := l.windows.insert flow window.reset
            states := l.states.insert flow {}
            expired := l.expired.insert flow state }, [.remove ip dir])
      else
        ({ l with
            windows := l.windows.insert flow window
            states := l.states.insert flow state }, [])

/-- The byte deltas of one address since the tick before. The first observation is a
baseline, and a counter that went backwards counts as zero. -/
def deltas (prev : Option IpTotals) (cur : IpTotals) : ℕ × ℕ :=
  match prev with
  | none => (0, 0)
  | some prev => (cur.rxBytes - prev.rxBytes, cur.txBytes - prev.txBytes)

/-- One address in the loop of `tick`. -/
def tickIp (now : ℕ) (totals : Table UInt32 IpTotals) (l : Limiter) (ip : UInt32) :
    Limiter × List LimitAction :=
  match l.effectivePolicy ip with
  | none => (l, [])
  | some policy =>
    let cur := (totals ip).getD {}
    let delta := deltas (l.prevTotals ip) cur
    let l := { l with prevTotals := l.prevTotals.insert ip cur }
    let rx := evalDir reaches ip dirRx policy.rx delta.1 now l
    let tx := evalDir reaches ip dirTx policy.tx delta.2 now rx.1
    (tx.1, rx.2 ++ tx.2)

/-- The addresses a tick evaluates: those with traffic, with a window or LIMITED. -/
def Evaluated (l : Limiter) (totals : Table UInt32 IpTotals) (ip : UInt32) : Prop :=
  (totals ip).isSome ∨ ∃ dir, (l.windows (ip, dir)).isSome ∨ l.Limited (ip, dir)

/-- The loop of `tick` over the addresses. -/
def tickIps (now : ℕ) (totals : Table UInt32 IpTotals) :
    List UInt32 → Limiter → Limiter × List LimitAction
  | [], l => (l, [])
  | ip :: ips, l =>
    let first := tickIp reaches now totals l ip
    let rest := tickIps now totals ips first.1
    (rest.1, first.2 ++ rest.2)

/-- `tick`, visiting the addresses in the given order. -/
def tick (l : Limiter) (now : ℕ) (totals : Table UInt32 IpTotals) (ips : List UInt32) :
    Limiter × List LimitAction :=
  tickIps reaches now totals ips { l with expired := Table.empty }

/-! ### Status accessors -/

/-- `state`. -/
def state (l : Limiter) (flow : FlowKey) : DirState := (l.states flow).getD {}

/-- `is_limited`. -/
def isLimited (l : Limiter) (flow : FlowKey) : Bool := (l.state flow).phase = .limited

/-- `remaining_secs`: seconds of limiting left for a flow. -/
def remainingSecs (l : Limiter) (flow : FlowKey) (now : ℕ) : ℕ :=
  if (l.state flow).phase ≠ .limited then 0 else (l.state flow).limitedUntil - now

/-- `limited_count`: the LIMITED flows within the addresses, when the states are visited in
the given order. -/
def limitedCount (l : Limiter) (start stop : UInt32) (flows : List FlowKey) : ℕ :=
  flows.countP fun flow => l.isLimited flow && start ≤ flow.1 && flow.1 ≤ stop

end Limiter

end VmWatcher

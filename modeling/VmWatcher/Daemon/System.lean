import VmWatcher.Core.Proofs.Accepted
import VmWatcher.Daemon.Apply
import Mathlib.Data.Finset.Card

/-!
# The engine and its maps in motion (`vm-bandwidth/src/daemon.rs`)

The states the daemon goes through: it starts with empty limit maps, and then ticks and
reloads follow each other in any order, with any map operation failing anywhere.
-/

namespace VmWatcher

/-- `whitelist_peak`: the prefixes the trie holds at the peak of a reload. -/
def whitelistPeak (old new : List Cidr) : ℕ := (old.toFinset ∪ new.toFinset).card

/-- What the engine fixes at startup. -/
structure Startup where
  bridge : String
  whitelistCapacity : ℕ

/-- The checks `apply_config` makes before it plans anything. -/
def checkReload (startup : Startup) (cur newCfg : ValidatedConfig)
    (oldPrefixes newPrefixes : List Cidr) : Except String Unit := do
  if newCfg.bridge ≠ startup.bridge then
    throw (s!"changing network.bridge ({startup.bridge} -> {newCfg.bridge}) is not supported by " ++
      "hot reload; restart the daemon instead")
  if newCfg.refreshIntervalMs ≠ cur.refreshIntervalMs then
    throw ("changing collector.refresh_interval_ms is not supported by hot reload " ++
      "(the limiter's windows are calibrated in whole tick seconds); restart the daemon instead")
  if newCfg.mapMaxEntries ≠ cur.mapMaxEntries then
    throw ("changing collector.map_max_entries is not supported by hot reload " ++
      "(the eBPF maps are sized once at startup); restart the daemon instead")
  if newCfg.swlMapMaxEntries ≠ cur.swlMapMaxEntries then
    throw ("changing collector.swl_map_max_entries is not supported by hot reload " ++
      "(the eBPF maps are sized once at startup); restart the daemon instead")
  let peak := whitelistPeak oldPrefixes newPrefixes
  if peak > startup.whitelistCapacity then
    throw (s!"new config needs {newPrefixes.length} whitelist prefixes ({peak} while the reload " ++
      s!"swaps them in) but MONITORED_IPS capacity is {startup.whitelistCapacity} (sized at " ++
      "startup); restart the daemon to resize it")

theorem checkReload_inv {startup : Startup} {cur newCfg : ValidatedConfig}
    {oldPrefixes newPrefixes : List Cidr}
    (h : checkReload startup cur newCfg oldPrefixes newPrefixes = .ok ()) :
    newCfg.bridge = startup.bridge ∧ newCfg.refreshIntervalMs = cur.refreshIntervalMs ∧
      whitelistPeak oldPrefixes newPrefixes ≤ startup.whitelistCapacity := by
  by_cases bridge : newCfg.bridge = startup.bridge
  · by_cases interval : newCfg.refreshIntervalMs = cur.refreshIntervalMs
    · by_cases peak : whitelistPeak oldPrefixes newPrefixes ≤ startup.whitelistCapacity
      · exact ⟨bridge, interval, peak⟩
      · have hover : whitelistPeak oldPrefixes newPrefixes > startup.whitelistCapacity := by omega
        simp only [checkReload, bridge, interval, hover, ne_eq, not_true_eq_false, if_false,
          if_true] at h
        split_ifs at h <;> cases h
    · simp only [checkReload, bridge, interval, ne_eq, not_true_eq_false, not_false_eq_true,
        if_false, if_true] at h
      cases h
  · simp only [checkReload, bridge, ne_eq, not_false_eq_true, if_true] at h
    cases h

/-- The control plane and the maps. -/
structure System where
  engine : Engine
  maps : Dataplane

namespace System

/-- The daemon has started: the first configuration is in force, the limit maps are empty. -/
structure Starts (s : System) : Prop where
  accepted : s.engine.config.Accepted
  planned : ∃ now plan,
    (Limiter.new (s.engine.config.refreshIntervalMs / 1000)).planReload s.engine.config now [] =
      .ok plan ∧
    s.engine.limiter =
      (Limiter.new (s.engine.config.refreshIntervalMs / 1000)).commitReload plan
  unarmed : s.maps.policies = Table.empty
  noState : s.maps.limitState = Table.empty
  noRing : s.maps.swlLog = Table.empty

end System

/-- Every rollback step of a transaction succeeded, if there were any. -/
def cleanEnd {ε α : Type} (report : ε → RollbackReport) : Except ε α → Bool
  | .ok _ => true
  | .error e => (report e).dataplaneConsistent

/-- Ticks and reloads from a started daemon, in any order and whatever fails. The flag
tells whether no rollback step has failed so far. -/
inductive System.Reachable (reaches : RollingWindow → ℕ → Bool) (starts : System → Prop) :
    System → Bool → Prop where
  | start {s : System} : starts s → Reachable reaches starts s true
  | tick {s : System} {clean : Bool} {now : ℕ} {totals : Table UInt32 IpTotals}
      {ips : List UInt32} {evs : List (OpProg.Event MapOp AnyError Dataplane)}
      {limiter : Limiter} {failures : List TickActionFailure} {maps : Dataplane} :
      Reachable reaches starts s clean → Visits ips (s.engine.limiter.Evaluated totals) →
      OpProg.Runs MapOp.exec
        (applyTickActions (s.engine.limiter.tick reaches now totals ips).1
          (s.engine.limiter.tick reaches now totals ips).2)
        s.maps evs (limiter, failures) maps →
      Reachable reaches starts ⟨{ s.engine with limiter }, maps⟩
        (clean && failures.all (·.report.dataplaneConsistent))
  | reload {s : System} {clean : Bool} {cfg : ValidatedConfig} {now : ℕ}
      {limited : List FlowKey} {plan : ReloadPlan} {oldPrefixes newPrefixes : List Cidr}
      {evs : List (OpProg.Event MapOp AnyError Dataplane)} {engine : Engine}
      {r : Except ReloadApplyError Unit} {maps : Dataplane} :
      Reachable reaches starts s clean → cfg.Accepted →
      Visits limited s.engine.limiter.Limited →
      s.engine.limiter.planReload cfg now limited = .ok plan →
      Visits oldPrefixes (· ∈ prefixSet s.engine.config) →
      Visits newPrefixes (· ∈ prefixSet cfg) →
      OpProg.Runs MapOp.exec (applyAndCommit s.engine oldPrefixes newPrefixes plan cfg) s.maps evs
        (engine, r) maps →
      Reachable reaches starts ⟨engine, maps⟩ (clean && cleanEnd ReloadApplyError.report r)

end VmWatcher

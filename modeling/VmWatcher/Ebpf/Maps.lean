import VmWatcher.Common
import VmWatcher.Core.IpRange
import VmWatcher.Misc.Table
import Mathlib.Logic.Function.Basic

/-!
# The maps the daemon writes (`vm-bandwidth-ebpf/src/main.rs`)

The limit maps and the whitelist trie, as the data path declares them. The per-CPU
layout of the verdict counters and the maps no limit transaction touches are left out.
-/

namespace VmWatcher

/-- The contents of the maps a limit transaction works on. -/
structure Dataplane where
  /-- `LIMIT_POLICIES`: a flow is armed when it has an entry here. -/
  policies : Table LimitKey LimitPolicy
  /-- `LIMIT_STATE`: the state artifact of every algorithm but one. -/
  limitState : Table LimitKey LimitState
  /-- `SWL_LOG`: the state artifact of the sliding window log. -/
  swlLog : Table LimitKey SwlRing
  /-- `POLICER_STATS`. -/
  policerStats : Table LimitKey PolicerStats
  /-- The prefixes in `MONITORED_IPS`. Their value is always 1 and never read. -/
  monitoredIps : Cidr → Bool

namespace Dataplane

/-- The maps as they are created. -/
def empty : Dataplane :=
  ⟨Table.empty, Table.empty, Table.empty, Table.empty, fun _ => false⟩

end Dataplane

/-- The two maps that hold state artifacts. -/
inductive Artifact where
  | state
  | ring
  deriving DecidableEq, Repr

/-- The map an algorithm keeps its state in. -/
def artifactOf (algorithm : UInt32) : Artifact :=
  if algorithm = algoSlidingWindowLog then .ring else .state

/-- Whether the flow has a state artifact in the given map. -/
def Dataplane.hasArtifact (d : Dataplane) (key : LimitKey) : Artifact → Bool
  | .state => (d.limitState key).isSome
  | .ring => (d.swlLog key).isSome

/-- The hard invariant: an armed policy has the state artifact of its algorithm. -/
def Dataplane.Hard (d : Dataplane) : Prop :=
  ∀ key policy, d.policies key = some policy → d.hasArtifact key (artifactOf policy.algorithm)

end VmWatcher

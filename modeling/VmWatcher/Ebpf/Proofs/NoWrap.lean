import VmWatcher.Core.Proofs.Emitted
import VmWatcher.Ebpf.Proofs.Artifacts

/-!
# Data-path arithmetic never wraps

From the bounds that `parse` checks, through the limiter, to every operation of the six
algorithms in every reachable state.
-/

namespace VmWatcher

/-- Along every run of packets from the zeroed artifacts, every operation is exact or one
that `excused` names. -/
def RunsWithin (policy : LimitPolicy) (excused : ℕ → ArithOp → Prop) : Prop :=
  ∀ (ks : List Packet) (k : Packet), (∀ x ∈ ks, x.Clocked) → k.Clocked →
    ∀ op ∈ (policeArtifacts policy ((policer policeArtifacts policy).stateAfter {} ks)
      k.now k.len).ops, op.Exact ∨ excused k.now op

/-- The window bound of the log before the clock has reached the window. -/
def EarlyLogBound (policy : LimitPolicy) (now : ℕ) (op : ArithOp) : Prop :=
  policy.algorithm = algoSlidingWindowLog ∧ now < policy.windowNs ∧ op = .sub now policy.windowNs

theorem DirPolicy.Bounded.runsWithin {p : DirPolicy} (h : p.Bounded) :
    RunsWithin p.installed fun now op => op.Clamps ∨ EarlyLogBound p.installed now op := by
  intro ks k hks hk op hop
  have ht : 2 ^ 63 - 1 < 2 ^ 63 := by decide
  have reached := policeArtifacts_run h ht ks fun x hx =>
    ⟨Nat.le_pred_of_lt (hks x hx).now_lt, (hks x hx).policed⟩
  obtain ⟨v, hv, -⟩ := policeArtifacts_step h ht reached (Nat.le_pred_of_lt hk.now_lt) hk.policed
  exact hv.ops_ok op hop

/-- No policy the action arms makes the data path wrap, subtractions that stop at zero and
the early bound of the log apart. -/
def LimitAction.NeverWraps (action : LimitAction) : Prop :=
  ∀ policy, action.policy = some policy →
    RunsWithin policy fun now op => op.Clamps ∨ EarlyLogBound policy now op

theorem LimitAction.Arms.neverWraps {action : LimitAction} (h : action.Arms DirPolicy.Bounded) :
    action.NeverWraps := by
  intro policy hpolicy
  rcases h with unarmed | ⟨p, bounded, harms⟩
  · rw [unarmed] at hpolicy
    cases hpolicy
  · rw [harms, Option.some.injEq] at hpolicy
    subst hpolicy
    exact bounded.runsWithin

/-- Whatever the limiter installs in any run over accepted configurations, the data path
computes exactly. -/
theorem data_path_never_wraps {reaches : RollingWindow → ℕ → Bool} {late : Bool} {l : Limiter}
    {pending : List LimitAction}
    (h : Limiter.Reachable reaches ValidatedConfig.Accepted late l pending) :
    (∀ now totals ips, Visits ips (l.Evaluated totals) →
      ∀ action ∈ (l.tick reaches now totals ips).2, action.NeverWraps) ∧
    ∀ cfg now limited plan, cfg.Accepted → Visits limited l.Limited →
      l.planReload cfg now limited = .ok plan → ∀ action ∈ plan.actions, action.NeverWraps := by
  constructor
  · intro now totals ips visits action hmem
    exact (h.tick_arms_bounded now totals visits.nodup action hmem).neverWraps
  · intro cfg now limited plan accepted _ hplan action hmem
    exact (Limiter.planReload_arms_bounded accepted hplan action hmem).neverWraps

open Limiter in
/-- The tick that takes a flow to LIMITED, whose Install the data path computes exactly. -/
theorem data_path_never_wraps_gcra :
    (limitedRun receiveOnly).2 = [.installOf (1, dirRx) receiveOnly] ∧
      ∀ action ∈ (limitedRun receiveOnly).2, action.NeverWraps := by
  obtain ⟨reached, known⟩ := baselineRun_reachable false accepted_receiveLimit rfl
  exact ⟨by rfl,
    (data_path_never_wraps reached).1 1 _ [1] (known.visits { rxBytes := 125000 })⟩

/-! ### Subtractions that stop at zero -/

def leakyLimit : PolicyFields := { Limiter.receiveLimit with algorithm := some algoLeakyBucket }

def leakyOnly : DirPolicy := { Limiter.receiveOnly with algorithm := algoLeakyBucket }

theorem accepted_leakyLimit : (Limiter.oneAddress leakyLimit).Accepted := by
  have parsed : (Limiter.oneAddressFile (some { Limiter.receiveLimitEntry with
      algorithm := some "leaky_bucket" })).parse (fun _ => .error "") =
      .ok (Limiter.oneAddress leakyLimit) := by rfl
  exact ValidatedConfig.accepted_of_parse parsed

open Limiter in
/-- An idle leaky bucket is drained of more than it holds: the subtraction stops at zero
and does not yield the exact difference. -/
theorem leakyBucket_drain_clamps :
    Reachable RollingWindow.reachesExactly ValidatedConfig.Accepted false
      (limitedRun leakyOnly).1 (limitedRun leakyOnly).2 ∧
    (∃ action ∈ (limitedRun leakyOnly).2, action.policy = some leakyOnly.installed) ∧
    ¬ RunsWithin leakyOnly.installed (EarlyLogBound leakyOnly.installed) := by
  have planned : (new 1).planReload (oneAddress leakyLimit) 0 [] =
      .ok (indexPlan ⟨some leakyOnly, none⟩) := rfl
  refine ⟨(limitedRun_reachable false accepted_leakyLimit planned).1, ?_, ?_⟩
  · exact ⟨.installOf (1, dirRx) leakyOnly, by decide, rfl⟩
  · intro exact
    have clamped := exact [⟨1000000000, 100⟩] ⟨1008000000, 100⟩
      (fun x hx => by
        obtain rfl := List.mem_singleton.mp hx
        exact ⟨by decide, by decide⟩)
      ⟨by decide, by decide⟩ (.saturatingSub 100000000000 1000000000000) (by decide)
    rcases clamped with exactly | early
    · exact absurd exactly (by decide)
    · exact absurd early.1 (by decide)

end VmWatcher

import VmWatcher.Core.Proofs.Recovery

/-!
# What the limiter asks to install

Every Install carries a direction policy of the index it was decided under, and after
any run over accepted configurations every policy of the index is in bounds.
-/

namespace VmWatcher

/-- The nanoseconds of an accepted limit window fit. -/
theorem DirPolicy.Bounded.windowNs_installed {p : DirPolicy} (h : p.Bounded) :
    p.installed.windowNs = p.limitWindowSecs * 1000000000 := by
  have hle : p.limitWindowSecs ≤ 60 := by
    rcases h.algorithm with bucket | window
    · rw [(h.bucket bucket).2]
      exact Nat.zero_le _
    · exact (h.windowed window).2.2
  refine Nat.min_eq_left ?_
  calc p.limitWindowSecs * 1000000000 ≤ 60 * 1000000000 := Nat.mul_le_mul_right _ hle
    _ ≤ u64Max := by decide

/-- The action arms nothing, or a policy with the property. -/
def LimitAction.Arms (good : DirPolicy → Prop) (action : LimitAction) : Prop :=
  action.policy = none ∨ ∃ p, good p ∧ action.policy = some p.installed

theorem LimitAction.Arms.mono {good good' : DirPolicy → Prop} {action : LimitAction}
    (h : action.Arms good) (sub : ∀ p, good p → good' p) : action.Arms good' :=
  h.imp id fun ⟨p, hp, heq⟩ => ⟨p, sub p hp, heq⟩

theorem FlowView.eval_arms {reaches : RollingWindow → ℕ → Bool} {flow : FlowKey} {np : DirPolicy}
    {tickSecs delta now : ℕ} {v : FlowView} :
    ∀ a ∈ (v.eval reaches flow np tickSecs delta now).2, a.Arms (· = np) := by
  intro a ha
  unfold FlowView.eval at ha
  dsimp only at ha
  split at ha
  · split at ha
    · obtain rfl := List.mem_singleton.mp ha
      exact Or.inr ⟨np, rfl, rfl⟩
    · cases ha
  · split at ha
    · obtain rfl := List.mem_singleton.mp ha
      exact Or.inl rfl
    · cases ha

namespace Limiter

variable {reaches : RollingWindow → ℕ → Bool} {l : Limiter}

/-- An Install of a tick carries the policy its flow resolves to. -/
theorem tick_arms (now : ℕ) (totals : Table UInt32 IpTotals) {ips : List UInt32}
    (distinct : ips.Nodup) :
    ∀ a ∈ (l.tick reaches now totals ips).2, a.Arms fun p => l.dirPolicy a.flow = some p := by
  intro a ha
  have hactions := congrArg Prod.snd (tick_flow reaches now totals l ips distinct a.flow)
  have hmem : a ∈ (l.tick reaches now totals ips).2.filter (·.flow = a.flow) := by
    simpa using ha
  replace hmem : a ∈ (outcome a.flow (l.tick reaches now totals ips)).2 := hmem
  rw [hactions] at hmem
  split at hmem
  · unfold flowTick at hmem
    split at hmem
    · cases hmem
    next np hpolicy =>
      refine (FlowView.eval_arms a hmem).mono ?_
      intro p same
      subst same
      exact hpolicy
  · cases hmem

/-- An Install of a reload plan carries the policy its flow is to resolve to. -/
theorem planReload_arms {cfg : ValidatedConfig} {now : ℕ} {limited : List FlowKey}
    {plan : ReloadPlan} (h : l.planReload cfg now limited = .ok plan) :
    ∀ a ∈ plan.actions,
      a.Arms fun p => lookupDir plan.newRanges plan.newOverrides a.flow = some p := by
  have visit : ∀ flow, ∀ a ∈ (planOne plan.newRanges plan.newOverrides now l flow).removes ++
      (planOne plan.newRanges plan.newOverrides now l flow).installs,
      a.Arms fun p => lookupDir plan.newRanges plan.newOverrides a.flow = some p := by
    intro flow a ha
    cases hs : l.states flow with
    | none => simp [planOne, planFlow, hs] at ha
    | some s =>
      cases happlied : s.applied with
      | none => simp [planOne, planFlow, hs, happlied] at ha
      | some applied =>
        rw [planOne_eq hs happlied] at ha
        split at ha
        · obtain rfl : a = .remove flow.1 flow.2 := by simpa using ha
          exact Or.inl rfl
        next np hnp =>
          obtain ⟨hpolicy, -⟩ := Option.filter_eq_some_iff.mp hnp
          rw [List.nil_append] at ha
          split at ha
          · obtain rfl := List.mem_singleton.mp ha
            exact Or.inr ⟨np, hpolicy, rfl⟩
          · cases ha
  obtain ⟨-, hactions, -, -⟩ := planReload_eq h
  intro a ha
  rw [hactions] at ha
  rcases List.mem_append.mp ha with ha | ha
  · obtain ⟨flow, -, ha⟩ := List.mem_flatMap.mp ha
    exact visit flow a (List.mem_append_left _ ha)
  · obtain ⟨flow, -, ha⟩ := List.mem_flatMap.mp ha
    exact visit flow a (List.mem_append_right _ ha)

/-- A plan for an accepted configuration arms policies in bounds only. -/
theorem planReload_arms_bounded {cfg : ValidatedConfig} (accepted : cfg.Accepted) {now : ℕ}
    {limited : List FlowKey} {plan : ReloadPlan} (h : l.planReload cfg now limited = .ok plan) :
    ∀ a ∈ plan.actions, a.Arms DirPolicy.Bounded := by
  intro a ha
  apply (planReload_arms h a ha).mono
  intro p hp
  exact accepted.resolvesDir ((buildIndex_indexOf (planReload_eq h).1).lookupDir hp)

/-- Over any run the policies in force are in bounds. -/
theorem Reachable.bounded {late : Bool} {pending : List LimitAction}
    (h : Reachable reaches ValidatedConfig.Accepted late l pending) :
    ∀ flow p, l.dirPolicy flow = some p → p.Bounded := by
  induction h with
  | new tickSecs =>
    intro flow p hp
    cases hp
  | reload _ accepted _ hplan _ =>
    intro flow p hp
    rw [commitReload_dirPolicy] at hp
    exact accepted.resolvesDir ((buildIndex_indexOf (planReload_eq hplan).1).lookupDir hp)
  | tick now totals _ _ ih =>
    intro flow p hp
    rw [(tick_sameIndex reaches now totals _ _).dirPolicy] at hp
    exact ih flow p hp
  | revert _ _ ih =>
    intro flow p hp
    rw [(revertFailedAction_sameIndex _ _).dirPolicy] at hp
    exact ih flow p hp

theorem Reachable.tick_arms_bounded {late : Bool} {pending : List LimitAction}
    (h : Reachable reaches ValidatedConfig.Accepted late l pending) (now : ℕ)
    (totals : Table UInt32 IpTotals) {ips : List UInt32} (distinct : ips.Nodup) :
    ∀ a ∈ (l.tick reaches now totals ips).2, a.Arms DirPolicy.Bounded := fun a ha =>
  (tick_arms now totals distinct a ha).mono fun p hp => h.bounded a.flow p hp

end Limiter

end VmWatcher

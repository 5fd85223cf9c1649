import VmWatcher.Core.Limiter

/-!
# A tick, flow by flow

A tick treats every flow by itself: what it leaves of a flow and what it asks the
runtime to do for it depend on that flow's own entries, its address's counters and its
policy (`tick_flow`).
-/

namespace VmWatcher

/-- What the limiter keeps of one flow. -/
@[ext] structure FlowView where
  window : Option RollingWindow
  state : Option DirState
  expired : Option DirState

namespace FlowView

/-- `eval_dir` on the entries of its own flow. -/
def eval (reaches : RollingWindow → ℕ → Bool) (flow : FlowKey) (np : DirPolicy)
    (tickSecs delta now : ℕ) (v : FlowView) : FlowView × List LimitAction :=
  let window := (v.window.getD (RollingWindow.new np.windowSecs tickSecs)).add delta
  let state := v.state.getD {}
  match state.phase with
  | .normal =>
    if window.isFull && reaches window np.triggerBps then
      ({ v with
          window := some window
          state := some {
            phase := .limited
            limitedSince := now
            limitedUntil := u64SaturatingAdd now np.limitDurationSecs
            applied := some np } },
        [.installOf flow np])
    else ({ v with window := some window, state := some state }, [])
  | .limited =>
    if now ≥ state.limitedUntil then
      (⟨some window.reset, some {}, some state⟩, [.remove flow.1 flow.2])
    else ({ v with window := some window, state := some state }, [])

end FlowView

namespace Limiter

def view (l : Limiter) (flow : FlowKey) : FlowView :=
  ⟨l.windows flow, l.states flow, l.expired flow⟩

/-- The outcome of a tick, or of a part of it, for one flow. -/
def outcome (flow : FlowKey) (r : Limiter × List LimitAction) : FlowView × List LimitAction :=
  (r.1.view flow, r.2.filter (·.flow = flow))

/-- The same tick length and policy index: no tick changes them. -/
structure SameIndex (l l' : Limiter) : Prop where
  tickSecs : l'.tickSecs = l.tickSecs
  ranges : l'.ranges = l.ranges
  overrides : l'.overrides = l.overrides

theorem SameIndex.refl (l : Limiter) : l.SameIndex l := ⟨rfl, rfl, rfl⟩

theorem SameIndex.trans {l l' l'' : Limiter} (h : l.SameIndex l') (h' : l'.SameIndex l'') :
    l.SameIndex l'' :=
  ⟨h'.tickSecs.trans h.tickSecs, h'.ranges.trans h.ranges, h'.overrides.trans h.overrides⟩

theorem SameIndex.dirPolicy {l l' : Limiter} (h : l.SameIndex l') (flow : FlowKey) :
    l'.dirPolicy flow = l.dirPolicy flow := by
  unfold Limiter.dirPolicy
  rw [h.ranges, h.overrides]

theorem SameIndex.effectivePolicy {l l' : Limiter} (h : l.SameIndex l') (ip : UInt32) :
    l'.effectivePolicy ip = l.effectivePolicy ip := by
  unfold Limiter.effectivePolicy
  rw [h.ranges, h.overrides]

/-! ### One direction of one address -/

section Eval

variable (reaches : RollingWindow → ℕ → Bool) (ip : UInt32) (dir : UInt8)
variable (policy : Option DirPolicy) (delta now : ℕ) (l : Limiter)

theorem evalDir_sameIndex : l.SameIndex (evalDir reaches ip dir policy delta now l).1 := by
  unfold evalDir
  cases policy with
  | none => exact .refl l
  | some np =>
    dsimp only
    split <;> split <;> exact ⟨rfl, rfl, rfl⟩

theorem evalDir_prevTotals :
    (evalDir reaches ip dir policy delta now l).1.prevTotals = l.prevTotals := by
  unfold evalDir
  cases policy with
  | none => rfl
  | some np =>
    dsimp only
    split <;> split <;> rfl

/-- Its own flow is evaluated, every other flow is left alone. -/
theorem outcome_evalDir (flow : FlowKey) :
    outcome flow (evalDir reaches ip dir policy delta now l) =
      match policy with
      | none => (l.view flow, [])
      | some np =>
        if flow = (ip, dir) then (l.view flow).eval reaches flow np l.tickSecs delta now
        else (l.view flow, []) := by
  unfold evalDir
  cases policy with
  | none => rfl
  | some np =>
    simp only [FlowView.eval]
    generalize hw : ((l.windows (ip, dir)).getD (RollingWindow.new np.windowSecs l.tickSecs)).add
      delta = window
    generalize hs : (l.states (ip, dir)).getD {} = state
    by_cases h : flow = (ip, dir)
    · subst h
      simp only [view, hw, hs, if_true]
      cases hphase : state.phase with
      | normal =>
        by_cases hit : window.isFull && reaches window np.triggerBps
        · simp [outcome, view, hit]
        · simp [outcome, view, hit]
      | limited =>
        by_cases hover : now ≥ state.limitedUntil
        · simp [outcome, view, hover, LimitAction.flow]
        · simp [outcome, view, hover]
    · have hne : (ip, dir) ≠ flow := fun heq => h heq.symm
      simp only [if_neg h]
      cases hphase : state.phase with
      | normal =>
        by_cases hit : window.isFull && reaches window np.triggerBps
        · simp [outcome, view, hit, h, hne]
        · simp [outcome, view, hit, h]
      | limited =>
        by_cases hover : now ≥ state.limitedUntil
        · simp [outcome, view, hover, LimitAction.flow, h, hne]
        · simp [outcome, view, hover, h]

theorem outcome_evalDir_of_ne {flow : FlowKey} (h : flow ≠ (ip, dir)) :
    outcome flow (evalDir reaches ip dir policy delta now l) = (l.view flow, []) := by
  rw [outcome_evalDir]
  cases policy with
  | none => rfl
  | some np => exact if_neg h

end Eval

/-! ### One address -/

/-- The bytes a flow moved since the tick before. -/
def flowDelta (l : Limiter) (totals : Table UInt32 IpTotals) (flow : FlowKey) : ℕ :=
  let delta := deltas (l.prevTotals flow.1) ((totals flow.1).getD {})
  if flow.2 = dirRx then delta.1 else delta.2

/-- A tick on one flow. -/
def flowTick (reaches : RollingWindow → ℕ → Bool) (l : Limiter) (now : ℕ)
    (totals : Table UInt32 IpTotals) (flow : FlowKey) : FlowView × List LimitAction :=
  match l.dirPolicy flow with
  | none => (l.view flow, [])
  | some np => (l.view flow).eval reaches flow np l.tickSecs (l.flowDelta totals flow) now

section Tick

variable (reaches : RollingWindow → ℕ → Bool) (now : ℕ) (totals : Table UInt32 IpTotals)

theorem tickIp_sameIndex (l : Limiter) (ip : UInt32) :
    l.SameIndex (tickIp reaches now totals l ip).1 := by
  unfold tickIp
  cases l.effectivePolicy ip with
  | none => exact .refl l
  | some policy =>
    have baseline : l.SameIndex
        { l with prevTotals := l.prevTotals.insert ip ((totals ip).getD {}) } := ⟨rfl, rfl, rfl⟩
    refine baseline.trans ?_
    exact (evalDir_sameIndex reaches ip dirRx policy.rx _ now _).trans
      (evalDir_sameIndex reaches ip dirTx policy.tx _ now _)

theorem tickIp_prevTotals (l : Limiter) {ip ip' : UInt32} (h : ip' ≠ ip) :
    (tickIp reaches now totals l ip).1.prevTotals ip' = l.prevTotals ip' := by
  unfold tickIp
  cases l.effectivePolicy ip with
  | none => rfl
  | some policy =>
    dsimp only
    rw [evalDir_prevTotals, evalDir_prevTotals]
    exact Table.insert_of_ne h

/-- The two directions of one address, one after the other. -/
theorem outcome_bothDirs (l : Limiter) (ip : UInt32) (policy : EffectivePolicy)
    (delta : ℕ × ℕ) (flow : FlowKey) :
    let rx := evalDir reaches ip dirRx policy.rx delta.1 now l
    let tx := evalDir reaches ip dirTx policy.tx delta.2 now rx.1
    outcome flow (tx.1, rx.2 ++ tx.2) =
      match if flow.1 = ip then policy.dir flow.2 else none with
      | none => (l.view flow, [])
      | some np => (l.view flow).eval reaches flow np l.tickSecs
          (if flow.2 = dirRx then delta.1 else delta.2) now := by
  intro rx tx
  have parts : outcome flow (tx.1, rx.2 ++ tx.2) =
      ((outcome flow tx).1, (outcome flow rx).2 ++ (outcome flow tx).2) := by
    simp [outcome]
  rw [parts]
  obtain ⟨ip', dir⟩ := flow
  by_cases hrx : (ip', dir) = (ip, dirRx)
  · obtain ⟨rfl, rfl⟩ := Prod.mk.inj hrx
    have htx : outcome (ip', dirRx) tx = (rx.1.view (ip', dirRx), []) :=
      outcome_evalDir_of_ne _ _ _ _ _ _ _ (by simp [dirRx, dirTx])
    have hdir : policy.dir dirRx = policy.rx := rfl
    rw [htx, List.append_nil, if_pos rfl, hdir, if_pos rfl]
    refine Eq.trans (show _ = outcome (ip', dirRx) rx from rfl) ?_
    rw [outcome_evalDir]
    simp only [if_true]
  · have hsame : outcome (ip', dir) rx = (l.view (ip', dir), []) :=
      outcome_evalDir_of_ne _ _ _ _ _ _ _ hrx
    have hview : rx.1.view (ip', dir) = l.view (ip', dir) := congrArg Prod.fst hsame
    have hsecs : rx.1.tickSecs = l.tickSecs := (evalDir_sameIndex ..).tickSecs
    rw [hsame, List.nil_append]
    refine Eq.trans (show _ = outcome (ip', dir) tx from rfl) ?_
    by_cases htx : (ip', dir) = (ip, dirTx)
    · obtain ⟨rfl, rfl⟩ := Prod.mk.inj htx
      have hdir : policy.dir dirTx = policy.tx := rfl
      have hne : dirTx ≠ dirRx := by decide
      rw [if_pos rfl, hdir, if_neg hne, outcome_evalDir, hview, hsecs]
      simp only [if_true]
    · have hnone : (if ip' = ip then policy.dir dir else none) = none := by
        by_cases h : ip' = ip
        · have h₁ : dir ≠ dirRx := fun heq => hrx (by rw [h, heq])
          have h₂ : dir ≠ dirTx := fun heq => htx (by rw [h, heq])
          rw [if_pos h, EffectivePolicy.dir, if_neg h₁, if_neg h₂]
        · exact if_neg h
      rw [outcome_evalDir_of_ne _ _ _ _ _ _ _ htx, hview, hnone]

theorem outcome_tickIp (l : Limiter) (ip : UInt32) (flow : FlowKey) :
    outcome flow (tickIp reaches now totals l ip) =
      if flow.1 = ip then l.flowTick reaches now totals flow else (l.view flow, []) := by
  have hdir : ∀ eff, l.effectivePolicy ip = eff → flow.1 = ip →
      l.dirPolicy flow = eff.bind fun p => p.dir flow.2 := by
    rintro eff rfl rfl
    rfl
  unfold tickIp
  cases heff : l.effectivePolicy ip with
  | none =>
    by_cases h : flow.1 = ip
    · simp [h, flowTick, hdir _ heff h, outcome]
    · simp [h, outcome]
  | some policy =>
    refine (outcome_bothDirs reaches now _ ip policy _ flow).trans ?_
    by_cases h : flow.1 = ip
    · simp only [h, if_true, flowTick, flowDelta, hdir _ heff h, Option.bind_some]
      rfl
    · simp only [h, if_false]
      rfl

/-! ### All addresses -/

theorem tickIps_sameIndex (ips : List UInt32) (l : Limiter) :
    l.SameIndex (tickIps reaches now totals ips l).1 := by
  induction ips generalizing l with
  | nil => exact .refl l
  | cons ip ips ih => exact (tickIp_sameIndex reaches now totals l ip).trans (ih _)

theorem outcome_tickIps (ips : List UInt32) (distinct : ips.Nodup) (l : Limiter)
    (flow : FlowKey) :
    outcome flow (tickIps reaches now totals ips l) =
      if flow.1 ∈ ips then l.flowTick reaches now totals flow else (l.view flow, []) := by
  induction ips generalizing l with
  | nil => simp [tickIps, outcome]
  | cons ip ips ih =>
    obtain ⟨hfresh, hrest⟩ := List.nodup_cons.mp distinct
    set first := tickIp reaches now totals l ip with hfirst
    have parts : outcome flow (tickIps reaches now totals (ip :: ips) l) =
        ((outcome flow (tickIps reaches now totals ips first.1)).1,
          (outcome flow first).2 ++ (outcome flow (tickIps reaches now totals ips first.1)).2) := by
      simp [outcome, tickIps, hfirst]
    have hone := outcome_tickIp reaches now totals l ip flow
    rw [parts, ih hrest first.1]
    by_cases h : flow.1 = ip
    · have hgone : flow.1 ∉ ips := h ▸ hfresh
      rw [if_pos h] at hone
      rw [if_neg hgone, if_pos (by simp [h]), ← hone, ← hfirst]
      simp [outcome]
    · rw [if_neg h] at hone
      have hview : first.1.view flow = l.view flow := congrArg Prod.fst hone
      have hnone : (outcome flow first).2 = [] := congrArg Prod.snd hone
      have hindex := tickIp_sameIndex reaches now totals l ip
      have htick : first.1.flowTick reaches now totals flow =
          l.flowTick reaches now totals flow := by
        unfold flowTick flowDelta
        rw [hindex.dirPolicy flow, hview, hindex.tickSecs,
          tickIp_prevTotals reaches now totals l h]
      rw [hnone, List.nil_append, htick, hview]
      simp [h]

/-- What a tick does to a flow depends on that flow, its address's counters and its
policy alone. -/
theorem tick_flow (l : Limiter) (ips : List UInt32) (distinct : ips.Nodup) (flow : FlowKey) :
    outcome flow (l.tick reaches now totals ips) =
      if flow.1 ∈ ips then { l with expired := Table.empty }.flowTick reaches now totals flow
      else ({ l.view flow with expired := none }, []) :=
  outcome_tickIps reaches now totals ips distinct _ flow

theorem tick_sameIndex (l : Limiter) (ips : List UInt32) :
    l.SameIndex (l.tick reaches now totals ips).1 := by
  have cleared : l.SameIndex { l with expired := Table.empty } := ⟨rfl, rfl, rfl⟩
  exact cleared.trans (tickIps_sameIndex reaches now totals ips _)

/-- A tick records the totals of every address it evaluates that has a policy. -/
theorem tickIps_prevTotals (ips : List UInt32) (l : Limiter) (ip : UInt32) :
    (tickIps reaches now totals ips l).1.prevTotals ip =
      if ip ∈ ips ∧ (l.effectivePolicy ip).isSome then some ((totals ip).getD {})
      else l.prevTotals ip := by
  induction ips generalizing l with
  | nil => simp [tickIps]
  | cons first ips ih =>
    have hindex := tickIp_sameIndex reaches now totals l first
    have same : (tickIp reaches now totals l first).1.effectivePolicy ip = l.effectivePolicy ip := by
      unfold effectivePolicy
      rw [hindex.ranges, hindex.overrides]
    refine (ih _).trans ?_
    rw [same]
    by_cases hip : ip = first
    · subst hip
      have recorded : (tickIp reaches now totals l ip).1.prevTotals ip =
          if (l.effectivePolicy ip).isSome then some ((totals ip).getD {}) else l.prevTotals ip := by
        unfold tickIp
        cases l.effectivePolicy ip with
        | none => rfl
        | some policy =>
          dsimp only
          rw [evalDir_prevTotals, evalDir_prevTotals]
          exact Table.insert_self
      rw [recorded]
      by_cases policed : (l.effectivePolicy ip).isSome <;> simp [policed]
    · rw [tickIp_prevTotals reaches now totals l hip]
      simp [hip]

theorem tick_prevTotals (l : Limiter) (ips : List UInt32) (ip : UInt32) :
    (l.tick reaches now totals ips).1.prevTotals ip =
      if ip ∈ ips ∧ (l.effectivePolicy ip).isSome then some ((totals ip).getD {})
      else l.prevTotals ip :=
  tickIps_prevTotals reaches now totals ips _ ip

end Tick

end Limiter

end VmWatcher

import VmWatcher.Ebpf.Proofs.Admission

/-!
# Recovery after idleness

However a flow was policed before, once it was idle for long enough every frame within
the policy's size is admitted.
-/

namespace VmWatcher

/-- How long a flow has to be idle until nothing is left of what it sent. -/
def LimitPolicy.recoveryNs (policy : LimitPolicy) : ℕ :=
  if policy.algorithm = algoTokenBucket ∨ policy.algorithm = algoLeakyBucket then
    (bucketParams policy).val.1 / (bucketParams policy).val.2
  else if policy.algorithm = algoGcra then policy.toleranceNs
  else if policy.algorithm = algoSlidingWindowCounter then 2 * policy.windowNs
  else policy.windowNs

section RecoveryNs

variable {policy : LimitPolicy}

theorem recoveryNs_gcra (h : policy.algorithm = algoGcra) :
    policy.recoveryNs = policy.toleranceNs := by
  rw [LimitPolicy.recoveryNs, h]
  rfl

theorem recoveryNs_fixed (h : policy.algorithm = algoFixedWindow) :
    policy.recoveryNs = policy.windowNs := by
  rw [LimitPolicy.recoveryNs, h]
  rfl

theorem recoveryNs_swc (h : policy.algorithm = algoSlidingWindowCounter) :
    policy.recoveryNs = 2 * policy.windowNs := by
  rw [LimitPolicy.recoveryNs, h]
  rfl

theorem recoveryNs_swl (h : policy.algorithm = algoSlidingWindowLog) :
    policy.recoveryNs = policy.windowNs := by
  rw [LimitPolicy.recoveryNs, h]
  rfl

end RecoveryNs

/-- A window counter that has not started a window has counted nothing. -/
def CountsFromStart (s : LimitState) : Prop := s.c = 0 → s.a = 0 ∧ s.b = 0

section Recovery

variable {policy : LimitPolicy} {t : ℕ} {s : StateArtifacts} {k : Packet}

theorem tokenBucket_recovers (h : BucketBounds policy) (ha : policy.algorithm = algoTokenBucket)
    (hs : ArtifactsBy policy t s) (hidle : t + policy.recoveryNs ≤ k.now) (hnow : k.now < 2 ^ 64)
    (hk : k.Policed) (hsize : k.len ≤ policy.burstBytes) :
    (policer policeArtifacts policy s k).2 = true := by
  obtain ⟨fit, hb⟩ := (artifactsBy_token ha).mp hs
  have hcost := costNbytes_eq hk.2
  have hfull : policy.recoveryNs = policy.capacity / policy.perNs := by
    rw [LimitPolicy.recoveryNs, if_pos (Or.inl ha), bucketParams_val h]
  have refilled : refilledTokens policy s.state k.now = policy.capacity := by
    rw [refilledTokens, if_pos (by omega)]
    exact Reservoir.refill_of_fullTime (show policy.capacity / policy.perNs ≤ _ by omega)
  have enough : costNbytes k.len ≤ policy.capacity := by
    rw [hcost, LimitPolicy.capacity, Nat.mul_comm]
    exact Nat.mul_le_mul_right _ hsize
  rw [verdict_state (by rw [ha]; decide), policeState_token ha,
    (Traced.Yields.tokenBucket h hnow fit (Or.inr trivial) :
      Traced.Yields (fun _ => True) _ _).val_eq]
  exact decide_eq_true (refilled ▸ enough)

theorem leakyBucket_recovers (h : BucketBounds policy) (ha : policy.algorithm = algoLeakyBucket)
    (hs : ArtifactsBy policy t s) (hidle : t + policy.recoveryNs ≤ k.now) (hnow : k.now < 2 ^ 64)
    (hk : k.Policed) (hsize : k.len ≤ policy.burstBytes) :
    (policer policeArtifacts policy s k).2 = true := by
  obtain ⟨-, hb⟩ := (artifactsBy_leaky ha).mp hs
  have hcost := costNbytes_eq hk.2
  have hfull : policy.recoveryNs = policy.capacity / policy.perNs := by
    rw [LimitPolicy.recoveryNs, if_pos (Or.inr ha), bucketParams_val h]
  have drained : drainedLevel policy s.state k.now = 0 := by
    rw [drainedLevel, if_pos (by omega)]
    exact Reservoir.drain_of_fullTime (show policy.capacity / policy.perNs ≤ _ by omega)
  have enough : costNbytes k.len ≤ policy.capacity := by
    rw [hcost, LimitPolicy.capacity, Nat.mul_comm]
    exact Nat.mul_le_mul_right _ hsize
  rw [verdict_state (by rw [ha]; decide), policeState_leaky ha,
    (Traced.Yields.leakyBucket h hnow (Or.inr trivial) (fun _ _ => trivial) :
      Traced.Yields (fun _ => True) _ _).val_eq]
  exact decide_eq_true (by rw [drained, Nat.zero_add]; exact enough)

theorem gcra_recovers (h : BucketBounds policy) (ha : policy.algorithm = algoGcra)
    (hs : ArtifactsBy policy t s) (hidle : t + policy.recoveryNs ≤ k.now)
    (hnow : k.now + policy.toleranceNs < 2 ^ 64) (hk : k.Policed)
    (hsize : k.len ≤ policy.burstBytes) :
    (policer policeArtifacts policy s k).2 = true := by
  have htat := (artifactsBy_gcra ha).mp hs
  have hrecovery := recoveryNs_gcra ha
  have hinc : policy.incrementNs k.len ≤ policy.toleranceNs := policy.incrementNs_mono hsize
  rw [verdict_state (by rw [ha]; decide), policeState_gcra ha, gcra_val h hk.2]
  refine decide_eq_true ?_
  rw [Nat.mod_eq_of_lt (by omega), Nat.mod_eq_of_lt hnow]
  omega

theorem fixedWindow_recovers (h : WindowBounds policy) (ha : policy.algorithm = algoFixedWindow)
    (hs : ArtifactsBy policy t s) (hidle : t + policy.recoveryNs ≤ k.now) (hnow : k.now < 2 ^ 64)
    (hk : k.Policed) (hsize : k.len ≤ policy.allowance) :
    (policer policeArtifacts policy s k).2 = true := by
  obtain ⟨fit, hb⟩ := (artifactsBy_fixed ha).mp hs
  have hrecovery := recoveryNs_fixed ha
  have hover : s.state.b = 0 ∨ s.state.b + policy.windowNs ≤ k.now := Or.inr (by omega)
  rw [verdict_state (by rw [ha]; decide), policeState_fixed ha,
    (Traced.Yields.fixedWindow h fit (by omega) (Or.inl hk.2) :
      Traced.Yields (fun _ => False) _ _).val_eq]
  simp [fixedWindowExact, fixedRolled, hover, hsize]

theorem slidingWindowCounter_recovers (h : WindowBounds policy)
    (ha : policy.algorithm = algoSlidingWindowCounter) (hs : ArtifactsBy policy t s)
    (start : CountsFromStart s.state) (hidle : t + policy.recoveryNs ≤ k.now)
    (hnow : k.now < 2 ^ 64) (hk : k.Policed) (hsize : k.len ≤ policy.allowance) :
    (policer policeArtifacts policy s k).2 = true := by
  obtain ⟨fit, hc⟩ := (artifactsBy_swc ha).mp hs
  have hrecovery := recoveryNs_swc ha
  have empty : (rotated policy.windowNs s.state k.now).a = 0 ∧
      (rotated policy.windowNs s.state k.now).b = 0 := by
    unfold rotated
    by_cases unset : s.state.c = 0
    · rw [if_pos unset]
      exact start unset
    · rw [if_neg unset, if_pos (by omega)]
      exact ⟨rfl, rfl⟩
  rw [verdict_state (by rw [ha]; decide), policeState_swc ha,
    (Traced.Yields.slidingWindowCounter h fit (by omega) (Or.inl hk.2) (fun _ _ => trivial) :
      Traced.Yields (fun _ => True) _ _).val_eq]
  simp [slidingWindowCounterExact, empty, carriedBytes, hsize]

theorem swlPolice_recovers (h : WindowBounds policy)
    (ha : policy.algorithm = algoSlidingWindowLog) (hs : ArtifactsBy policy t s)
    (hidle : t + policy.recoveryNs ≤ k.now) (hnow : k.now < 2 ^ 64) (hk : k.Policed)
    (hsize : k.len ≤ policy.allowance) :
    (policer policeArtifacts policy s k).2 = true := by
  obtain ⟨lens, stamps⟩ := (artifactsBy_swl ha).mp hs
  have hrecovery := recoveryNs_swl ha
  have hbound : (Traced.sub k.now policy.windowNs).val = k.now - policy.windowNs :=
    (Traced.Yields.sub hnow (by omega) : Traced.Yields (fun _ => False) _ _).val_eq
  have unused : usedSince (k.now - policy.windowNs) s.ring.entries.toList = 0 := by
    apply List.sum_eq_zero
    intro x hx
    obtain ⟨e, he, rfl⟩ := List.mem_map.mp hx
    have := stamps e he
    exact if_neg (by omega)
  rw [verdict_ring ha, (Traced.Yields.swlPolice h lens hk.2 (Or.inr trivial) :
    Traced.Yields (fun _ => True) _ _).val_eq]
  simp [swlPoliceExact, hbound, unused, hsize]

end Recovery

/-! ### Runs up to the idle time -/

section States

variable {policy : LimitPolicy} {t : ℕ} {s : StateArtifacts} {k : Packet}

theorem state_after (h : policy.algorithm ≠ algoSlidingWindowLog) :
    (policer policeArtifacts policy s k).1.state =
      (policeState policy s.state k.now k.len).val.1 := by
  unfold policer
  rw [policeArtifacts_state h]
  simp only [Traced.val_bind, Traced.val_pure]

/-- An arrival time that is kept is within the burst tolerance of the packet's clock. -/
theorem gcra_kept (h : BucketBounds policy) (ha : policy.algorithm = algoGcra)
    (hs : ArtifactsBy policy t s) (hnow : k.now ≤ t)
    (hk : k.Policed) : ArtifactsBy policy t (policer policeArtifacts policy s k).1 := by
  have htat := (artifactsBy_gcra ha).mp hs
  rw [artifactsBy_gcra ha, state_after (by rw [ha]; decide), policeState_gcra ha,
    gcra_val h hk.2]
  generalize (max k.now s.state.a + policy.incrementNs k.len) % 2 ^ 64 = candidate
  have hdeadline : (k.now + policy.toleranceNs) % 2 ^ 64 ≤ t + policy.toleranceNs :=
    (Nat.mod_le _ _).trans (Nat.add_le_add_right hnow _)
  show (if candidate ≤ (k.now + policy.toleranceNs) % 2 ^ 64 then candidate else s.state.a) ≤ _
  split
  next conform => exact conform.trans hdeadline
  next => exact htat

/-- A window that rolls at a positive reading has a positive start. -/
theorem rotated_start_pos {windowNs : ℕ} {state : LimitState} {now : ℕ} (positive : 0 < now) :
    0 < (rotated windowNs state now).c := by
  unfold rotated
  by_cases unset : state.c = 0
  · rw [if_pos unset]
    exact positive
  · rw [if_neg unset]
    have set := Nat.pos_of_ne_zero unset
    split
    · exact positive
    · split
      · exact Nat.lt_of_lt_of_le set (Nat.le_add_right _ _)
      · exact set

theorem slidingWindowCounterExact_start {now len : ℕ} {state : LimitState} :
    (slidingWindowCounterExact policy state now len).1.c =
      (rotated policy.windowNs state now).c := by
  unfold slidingWindowCounterExact
  dsimp only
  split <;> rfl

/-- From the first positive reading on, a window counter has started a window. -/
theorem countsFromStart_step (h : WindowBounds policy)
    (ha : policy.algorithm = algoSlidingWindowCounter) (room : t + 2 * policy.windowNs < 2 ^ 64)
    (hs : ArtifactsBy policy t s) (hk : k.Policed) (positive : 0 < k.now) :
    CountsFromStart (policer policeArtifacts policy s k).1.state := by
  obtain ⟨fit, hc⟩ := (artifactsBy_swc ha).mp hs
  have hclock : s.state.c + 2 * policy.windowNs < 2 ^ 64 := by omega
  rw [state_after (by rw [ha]; decide), policeState_swc ha,
    (Traced.Yields.slidingWindowCounter h fit hclock (Or.inl hk.2) (fun _ _ => trivial) :
      Traced.Yields (fun _ => True) _ _).val_eq]
  intro unset
  rw [slidingWindowCounterExact_start] at unset
  exact absurd unset (rotated_start_pos positive).ne'

end States

/-- What every step keeps is kept by every run. -/
theorem policer_keeps {policy : LimitPolicy} {kept : StateArtifacts → Prop}
    {input : Packet → Prop}
    (step : ∀ s k, kept s → input k → kept (policer policeArtifacts policy s k).1)
    (start : kept {}) (ks : List Packet) (hks : ∀ k ∈ ks, input k) :
    kept ((policer policeArtifacts policy).stateAfter {} ks) :=
  Mealy.stateAfter_keeps step ks ({} : StateArtifacts) start hks

section Runs

variable {p : DirPolicy} (h : p.Bounded) {t : ℕ} {s : StateArtifacts} {k : Packet}
include h

/-- Up to a reading that leaves room for the idle time no clock field runs ahead. -/
theorem idle_step (room : t + p.installed.recoveryNs < 2 ^ 64) (hs : ArtifactsBy p.installed t s)
    (hk : k.now ≤ t ∧ k.Policed) :
    ArtifactsBy p.installed t (policer policeArtifacts p.installed s k).1 := by
  have known : KnownAlgo p.installed.algorithm := h.algorithm
  have windowed : isWindowAlgo p.installed.algorithm → WindowBounds p.installed := h.windowBounds
  have hb := h.bucketBounds
  have hclock : t < 2 ^ 64 := Nat.lt_of_le_of_lt (Nat.le_add_right _ _) room
  rcases known.cases with ha | ha | ha | ha | ha | ha
  · exact (stepsWithin_token hb ha hclock hs hk.1 hk.2).kept
  · exact (stepsWithin_leaky hb ha hclock hs hk.1 hk.2).kept
  · exact gcra_kept hb ha hs hk.1 hk.2
  · have hwindow := windowed (by rw [ha]; decide)
    rw [recoveryNs_fixed ha] at room
    exact (stepsWithin_fixed hwindow ha room hs hk.1 hk.2).kept
  · have hwindow := windowed (by rw [ha]; decide)
    rw [recoveryNs_swc ha] at room
    exact (stepsWithin_swc hwindow ha room hs hk.1 hk.2).kept
  · have hwindow := windowed (by rw [ha]; decide)
    exact (stepsWithin_swl hwindow ha hs hk.1 hk.2).kept

theorem idle_run (room : t + p.installed.recoveryNs < 2 ^ 64) (ks : List Packet)
    (hks : ∀ x ∈ ks, x.now ≤ t ∧ x.Policed) :
    ArtifactsBy p.installed t ((policer policeArtifacts p.installed).stateAfter {} ks) :=
  policer_keeps (fun _ _ hs hk => idle_step h room hs hk) (artifactsBy_zeroed h.algorithm t) ks hks

theorem countsFromStart_run (ha : p.installed.algorithm = algoSlidingWindowCounter)
    (room : t + p.installed.recoveryNs < 2 ^ 64) (ks : List Packet)
    (hks : ∀ x ∈ ks, (x.now ≤ t ∧ x.Policed) ∧ 0 < x.now) :
    CountsFromStart ((policer policeArtifacts p.installed).stateAfter {} ks).state := by
  have hwindow := h.windowBounds (show isWindowAlgo p.installed.algorithm by rw [ha]; decide)
  have hroom : t + 2 * p.installed.windowNs < 2 ^ 64 := recoveryNs_swc ha ▸ room
  have step : ∀ (s : StateArtifacts) (x : Packet),
      ArtifactsBy p.installed t s ∧ CountsFromStart s.state →
      (x.now ≤ t ∧ x.Policed) ∧ 0 < x.now →
      ArtifactsBy p.installed t (policer policeArtifacts p.installed s x).1 ∧
        CountsFromStart (policer policeArtifacts p.installed s x).1.state := by
    intro s x hs hx
    exact ⟨idle_step h room hs.1 hx.1, countsFromStart_step hwindow ha hroom hs.1 hx.1.2 hx.2⟩
  have start : ArtifactsBy p.installed t {} ∧ CountsFromStart ({} : StateArtifacts).state :=
    ⟨artifactsBy_zeroed h.algorithm t, fun _ => ⟨rfl, rfl⟩⟩
  have both := policer_keeps step start ks hks
  exact both.2

end Runs

/-- No permanent lock-out: whatever a flow sent with clock readings up to `t₀`, once it was
idle for the algorithm's time every frame within the policy's size is admitted. The window
counter takes zero for "no window yet", and GCRA needs its deadline inside `u64`. -/
theorem idle_flow_recovers (cfg : ValidatedConfig) (accepted : cfg.Accepted) (p : DirPolicy)
    (hp : cfg.ResolvesDir p) (ks : List Packet) (t₀ : ℕ) (k : Packet)
    (before : ∀ x ∈ ks, x.now ≤ t₀ ∧ x.Policed)
    (positive : p.algorithm = algoSlidingWindowCounter → ∀ x ∈ ks, 0 < x.now)
    (idle : t₀ + p.installed.recoveryNs ≤ k.now) (clock : k.now < 2 ^ 64)
    (room : p.algorithm = algoGcra → k.now + p.installed.toleranceNs < 2 ^ 64)
    (hlen : 1 ≤ k.len) (hsize : k.len ≤ min maxPolicedLen p.maxAdmissibleFrameBytes) :
    admits p ks k = true := by
  have h := accepted.resolvesDir hp
  have hb := h.bucketBounds
  have known : KnownAlgo p.installed.algorithm := h.algorithm
  have hk : k.Policed := ⟨hlen, hsize.trans (min_le_left _ _)⟩
  have hsize := hsize.trans (min_le_right _ _)
  have fits : t₀ + p.installed.recoveryNs < 2 ^ 64 := Nat.lt_of_le_of_lt idle clock
  have reached := idle_run h fits ks before
  have bucket : isBucketAlgo p.installed.algorithm → k.len ≤ p.installed.burstBytes := fun bucket =>
    maxAdmissible_bucket (p := p) bucket ▸ hsize
  have windowed : isWindowAlgo p.installed.algorithm →
      WindowBounds p.installed ∧ k.len ≤ p.installed.allowance := fun window =>
    ⟨h.windowBounds window, h.allowance_eq window ▸ hsize⟩
  unfold admits
  rcases known.cases with ha | ha | ha | ha | ha | ha
  · exact tokenBucket_recovers hb ha reached idle clock hk (bucket (by rw [ha]; decide))
  · exact leakyBucket_recovers hb ha reached idle clock hk (bucket (by rw [ha]; decide))
  · exact gcra_recovers hb ha reached idle (room ha) hk (bucket (by rw [ha]; decide))
  · obtain ⟨hwindow, hfits⟩ := windowed (by rw [ha]; decide)
    exact fixedWindow_recovers hwindow ha reached idle clock hk hfits
  · obtain ⟨hwindow, hfits⟩ := windowed (by rw [ha]; decide)
    have start := countsFromStart_run h ha fits ks fun x hx => ⟨before x hx, positive ha x hx⟩
    exact slidingWindowCounter_recovers hwindow ha reached start idle clock hk hfits
  · obtain ⟨hwindow, hfits⟩ := windowed (by rw [ha]; decide)
    exact swlPolice_recovers hwindow ha reached idle clock hk hfits

def counterLimit : PolicyFields := { Limiter.receiveLimit with
  rxLimitBps := some 100000
  algorithm := some algoSlidingWindowCounter
  limitWindowSecs := some 1 }

/-- 12500 bytes in every second. -/
def counterOnly : DirPolicy := { Limiter.receiveOnly with
  limitBps := 100000
  burstBytes := 0
  algorithm := algoSlidingWindowCounter
  limitWindowSecs := 1 }

theorem accepted_counterLimit : (Limiter.oneAddress counterLimit).Accepted := by
  have parsed : (Limiter.oneAddressFile (some { Limiter.receiveLimitEntry with
      rxLimit := some "100Kbps"
      algorithm := some "sliding_window_counter"
      limitWindow := some "1s" })).parse (fun _ => .error "") =
      .ok (Limiter.oneAddress counterLimit) := by rfl
  exact ValidatedConfig.accepted_of_parse parsed

theorem resolvesDir_counterOnly : (Limiter.oneAddress counterLimit).ResolvesDir counterOnly :=
  resolvesDir_oneAddress (show resolve counterLimit none "" = _ by rfl)

theorem resolvesDir_receiveOnly :
    (Limiter.oneAddress Limiter.receiveLimit).ResolvesDir Limiter.receiveOnly :=
  resolvesDir_oneAddress (show resolve Limiter.receiveLimit none "" = _ by rfl)

/-- After a full window at 1 s a packet two windows later is admitted again. -/
theorem idle_flow_recovers_two_windows :
    admits counterOnly [⟨1000000000, 12500⟩] ⟨3000000000, 12500⟩ = true := by
  refine idle_flow_recovers _ accepted_counterLimit _ resolvesDir_counterOnly _ 1000000000 _
    (?_) (?_) (by rfl) (by decide) (?_)
    (by decide) (by rfl)
  · intro x hx
    obtain rfl := List.mem_singleton.mp hx
    exact ⟨le_refl _, by decide⟩
  · intro _ x hx
    obtain rfl := List.mem_singleton.mp hx
    decide
  · intro gcra
    exact absurd gcra (by decide)

/-- A window started at the reading zero is taken for no window, and its bytes stay; and
near the end of the clock GCRA's deadline wraps below every arrival time. -/
theorem idle_flow_stays_rejected :
    ((Limiter.oneAddress counterLimit).Accepted ∧
      (Limiter.oneAddress counterLimit).ResolvesDir counterOnly ∧
      0 + counterOnly.installed.recoveryNs ≤ 2000000000 ∧
      1 ≤ min maxPolicedLen counterOnly.maxAdmissibleFrameBytes ∧
      admits counterOnly [⟨0, 12500⟩] ⟨2000000000, 1⟩ = false) ∧
    ((Limiter.oneAddress Limiter.receiveLimit).Accepted ∧
      (Limiter.oneAddress Limiter.receiveLimit).ResolvesDir Limiter.receiveOnly ∧
      0 + Limiter.receiveOnly.installed.recoveryNs ≤ 2 ^ 64 - 1 - 100000 ∧
      1 ≤ min maxPolicedLen Limiter.receiveOnly.maxAdmissibleFrameBytes ∧
      admits Limiter.receiveOnly [] ⟨2 ^ 64 - 1 - 100000, 1⟩ = false) :=
  ⟨⟨accepted_counterLimit, resolvesDir_counterOnly, by rfl, by decide,
      by rfl⟩,
    ⟨Limiter.accepted_receiveLimit, resolvesDir_receiveOnly, by decide,
      by decide, by rfl⟩⟩

end VmWatcher

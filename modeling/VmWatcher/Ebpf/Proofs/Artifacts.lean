import VmWatcher.Core.Proofs.Emitted
import VmWatcher.Ebpf.Proofs.Gcra
import VmWatcher.Ebpf.Proofs.SwlLog
import VmWatcher.Ebpf.Proofs.WindowExact

/-!
# State artifacts under accepted policies

What holds of the state artifact of an accepted policy after any run of packets, in
whatever order their clock readings come: no content exceeds its capacity and no clock
field runs ahead of the latest reading by more than the algorithm allows.
-/

namespace VmWatcher

/-! ### Accepted policies in the data path -/

namespace DirPolicy.Bounded

variable {p : DirPolicy} (h : p.Bounded)
include h

theorem bucketBounds : BucketBounds p.installed where
  rate_ge := h.limit.1
  rate_le := h.limit.2
  burst_le := by
    change p.burstBytes ≤ 1073741824
    rcases h.algorithm with bucket | window
    · exact (h.bucket bucket).1.2
    · rw [(h.windowed window).1]
      exact Nat.zero_le _

theorem windowBounds (window : isWindowAlgo p.algorithm) : WindowBounds p.installed := by
  have hwindow := h.windowNs_installed
  have hge : 1 ≤ p.limitWindowSecs := (h.windowed window).2.1
  have hle : p.limitWindowSecs ≤ 60 := (h.windowed window).2.2
  exact ⟨h.limit.2, by omega, by omega⟩

theorem allowance_eq (window : isWindowAlgo p.algorithm) :
    p.installed.allowance = p.maxAdmissibleFrameBytes := by
  have hwindow := h.windowNs_installed
  have hrate : p.limitBps ≤ 1000000000000 := h.limit.2
  have hle : p.limitWindowSecs ≤ 60 := (h.windowed window).2.2
  have hsecs : p.installed.windowNs / nsPerSec = p.limitWindowSecs := by
    unfold nsPerSec
    omega
  have fits : p.limitBps / 8 * p.limitWindowSecs ≤ u64Max := by
    calc p.limitBps / 8 * p.limitWindowSecs ≤ 125000000000 * 60 := Nat.mul_le_mul (by omega) hle
      _ ≤ u64Max := by decide
  rw [LimitPolicy.allowance, hsecs, DirPolicy.maxAdmissibleFrameBytes, if_pos window]
  exact (Nat.min_eq_left fits).symm

end DirPolicy.Bounded

/-- The algorithms of the bucket kind and of the window kind, spelled out. -/
theorem KnownAlgo.cases {algorithm : UInt32} (h : KnownAlgo algorithm) :
    algorithm = algoTokenBucket ∨ algorithm = algoLeakyBucket ∨ algorithm = algoGcra ∨
      algorithm = algoFixedWindow ∨ algorithm = algoSlidingWindowCounter ∨
      algorithm = algoSlidingWindowLog := by
  simp only [KnownAlgo, isBucketAlgo, isWindowAlgo, Bool.or_eq_true, decide_eq_true_eq] at h
  tauto

/-! ### One packet on the artifacts -/

section Dispatch

variable {policy : LimitPolicy} {s : StateArtifacts} {now len : ℕ}

theorem policeArtifacts_state (h : policy.algorithm ≠ algoSlidingWindowLog) :
    policeArtifacts policy s now len = (do
      let (state, conform) ← policeState policy s.state now len
      return ({ s with state }, conform)) := if_neg h

theorem policeArtifacts_ring (h : policy.algorithm = algoSlidingWindowLog) :
    policeArtifacts policy s now len = (do
      let (ring, conform) ← swlPolice policy s.ring now len
      return ({ s with ring }, conform)) := if_pos h

theorem policeState_token (h : policy.algorithm = algoTokenBucket) :
    policeState policy s.state now len = tokenBucket policy s.state now len := if_pos h

theorem policeState_leaky (h : policy.algorithm = algoLeakyBucket) :
    policeState policy s.state now len = leakyBucket policy s.state now len := by
  rw [policeState, h]
  rfl

theorem policeState_fixed (h : policy.algorithm = algoFixedWindow) :
    policeState policy s.state now len = fixedWindow policy s.state now len := by
  rw [policeState, h]
  rfl

theorem policeState_swc (h : policy.algorithm = algoSlidingWindowCounter) :
    policeState policy s.state now len = slidingWindowCounter policy s.state now len := by
  rw [policeState, h]
  rfl

theorem policeState_gcra (h : policy.algorithm = algoGcra) :
    policeState policy s.state now len = gcra policy s.state now len := by
  rw [policeState, h]
  rfl

end Dispatch

/-- What every run of packets with clock readings up to `t` leaves of the artifacts. -/
def ArtifactsBy (policy : LimitPolicy) (t : ℕ) (s : StateArtifacts) : Prop :=
  if policy.algorithm = algoTokenBucket ∨ policy.algorithm = algoLeakyBucket then
    WithinCapacity policy s.state ∧ s.state.b ≤ t
  else if policy.algorithm = algoGcra then s.state.a ≤ t + policy.toleranceNs
  else if policy.algorithm = algoFixedWindow then s.state.a ≤ policy.allowance ∧ s.state.b ≤ t
  else if policy.algorithm = algoSlidingWindowCounter then
    WindowsFit policy s.state ∧ s.state.c ≤ t
  else PolicedLens s.ring.entries.toList ∧ ∀ e ∈ s.ring.entries.toList, e.tsNs ≤ t

section ArtifactsBy

variable {policy : LimitPolicy} {t : ℕ} {s : StateArtifacts}

theorem artifactsBy_token (h : policy.algorithm = algoTokenBucket) :
    ArtifactsBy policy t s ↔ WithinCapacity policy s.state ∧ s.state.b ≤ t := by
  rw [ArtifactsBy, h]
  exact Iff.rfl

theorem artifactsBy_leaky (h : policy.algorithm = algoLeakyBucket) :
    ArtifactsBy policy t s ↔ WithinCapacity policy s.state ∧ s.state.b ≤ t := by
  rw [ArtifactsBy, h]
  exact Iff.rfl

theorem artifactsBy_gcra (h : policy.algorithm = algoGcra) :
    ArtifactsBy policy t s ↔ s.state.a ≤ t + policy.toleranceNs := by
  rw [ArtifactsBy, h]
  exact Iff.rfl

theorem artifactsBy_fixed (h : policy.algorithm = algoFixedWindow) :
    ArtifactsBy policy t s ↔ s.state.a ≤ policy.allowance ∧ s.state.b ≤ t := by
  rw [ArtifactsBy, h]
  exact Iff.rfl

theorem artifactsBy_swc (h : policy.algorithm = algoSlidingWindowCounter) :
    ArtifactsBy policy t s ↔ WindowsFit policy s.state ∧ s.state.c ≤ t := by
  rw [ArtifactsBy, h]
  exact Iff.rfl

theorem artifactsBy_swl (h : policy.algorithm = algoSlidingWindowLog) :
    ArtifactsBy policy t s ↔
      PolicedLens s.ring.entries.toList ∧ ∀ e ∈ s.ring.entries.toList, e.tsNs ≤ t := by
  rw [ArtifactsBy, h]
  exact Iff.rfl

end ArtifactsBy

theorem artifactsBy_zeroed {policy : LimitPolicy} (known : KnownAlgo policy.algorithm) (t : ℕ) :
    ArtifactsBy policy t {} := by
  have blank : ∀ e ∈ (Vector.replicate swlLogCap ({} : SwlEntry)).toList, e = {} := by
    intro e he
    rw [Vector.toList_replicate] at he
    exact List.eq_of_mem_replicate he
  rcases known.cases with h | h | h | h | h | h
  · exact (artifactsBy_token h).mpr ⟨Nat.zero_le _, Nat.zero_le _⟩
  · exact (artifactsBy_leaky h).mpr ⟨Nat.zero_le _, Nat.zero_le _⟩
  · exact (artifactsBy_gcra h).mpr (Nat.zero_le _)
  · exact (artifactsBy_fixed h).mpr ⟨Nat.zero_le _, Nat.zero_le _⟩
  · exact (artifactsBy_swc h).mpr ⟨⟨Nat.zero_le _, Nat.zero_le _⟩, Nat.zero_le _⟩
  · refine (artifactsBy_swl h).mpr ⟨?_, ?_⟩
    · intro e he
      rw [blank e he]
      exact Nat.zero_le _
    · intro e he
      rw [blank e he]
      exact Nat.zero_le _

/-! ### One packet keeps them -/

/-- The ring of `swlPolice` in exact arithmetic, but for the bound of the window. -/
def swlPoliceExact (policy : LimitPolicy) (ring : SwlRing) (now len : ℕ) : SwlRing × Bool :=
  if usedSince (Traced.sub now policy.windowNs).val ring.entries.toList + len ≤
      policy.allowance then
    (ring.logged ⟨now, len⟩, true)
  else (ring, false)

namespace Traced.Yields

variable {allowed : ArithOp → Prop} {policy : LimitPolicy} {now len : ℕ}

theorem swlPolice {ring : SwlRing} (h : WindowBounds policy)
    (lens : PolicedLens ring.entries.toList) (hlen : len ≤ maxPolicedLen)
    (hsub : policy.windowNs ≤ now ∨ allowed (.sub now policy.windowNs)) :
    Yields allowed (VmWatcher.swlPolice policy ring now len)
      (swlPoliceExact policy ring now len) := by
  have hwindow := h.window_ge
  have hused := usedSince_le (Traced.sub now policy.windowNs).val lens
  have hroom : swlLogCap * maxPolicedLen + maxPolicedLen < 2 ^ 64 := by decide
  rw [Vector.length_toList] at hused
  have hhead : ring.head % swlLogCap < swlLogCap := Nat.mod_lt _ (by decide)
  have hcap : swlLogCap + 1 < 2 ^ 64 := by decide
  unfold VmWatcher.swlPolice swlPoliceExact
  rw [if_neg (by omega)]
  refine .bind (swlWindowUsed lens (by simp) hsub) (.bind (saturatingAdd (by omega)) ?_)
  refine .bind (windowAllowance h) ?_
  refine branch (?_) (?_)
  · intro fits
    refine .bind (add (by omega)) ((Yields.pure _).of_eq ?_)
    have hword : len % 2 ^ 32 = len := Nat.mod_eq_of_lt (lt_of_le_of_lt hlen (by decide))
    rw [if_pos fits, hword]
    simp only [SwlRing.logged, Packet.entry]
  · intro full
    exact (Yields.pure _).of_eq (if_neg full).symm

/-- The step of every algorithm but the log is the step of `police` on the state. -/
theorem onState {s : StateArtifacts} {v : LimitState × Bool}
    (h : policy.algorithm ≠ algoSlidingWindowLog)
    (hv : Yields allowed (policeState policy s.state now len) v) :
    Yields allowed (policeArtifacts policy s now len) ({ s with state := v.1 }, v.2) := by
  rw [policeArtifacts_state h]
  exact .bind hv (.pure _)

theorem onRing {s : StateArtifacts} {v : SwlRing × Bool}
    (h : policy.algorithm = algoSlidingWindowLog)
    (hv : Yields allowed (VmWatcher.swlPolice policy s.ring now len) v) :
    Yields allowed (policeArtifacts policy s now len) ({ s with ring := v.1 }, v.2) := by
  rw [policeArtifacts_ring h]
  exact .bind hv (.pure _)

end Traced.Yields

section Kept

variable {policy : LimitPolicy} {t now len : ℕ}

theorem tokenBucketExact_kept {s : LimitState} {cost : ℕ}
    (hs : WithinCapacity policy s ∧ s.b ≤ t) (hnow : now ≤ t) :
    WithinCapacity policy (tokenBucketExact policy s now cost).1 ∧
      (tokenBucketExact policy s now cost).1.b ≤ t := by
  have hrefilled := refilledTokens_le now hs.1
  refine ⟨?_, max_le hs.2 hnow⟩
  simp only [WithinCapacity, tokenBucketExact]
  split <;> omega

theorem leakyBucketExact_kept {s : LimitState} {cost : ℕ}
    (hs : WithinCapacity policy s ∧ s.b ≤ t) (hnow : now ≤ t) :
    WithinCapacity policy (leakyBucketExact policy s now cost).1 ∧
      (leakyBucketExact policy s now cost).1.b ≤ t := by
  have hdrained := drainedLevel_le policy s now
  obtain ⟨hcap, hb⟩ := hs
  unfold WithinCapacity at hcap
  refine ⟨?_, max_le hb hnow⟩
  simp only [WithinCapacity, leakyBucketExact]
  split <;> omega

theorem gcraSchedule_kept {tat : ℕ} {k : Packet} (htat : tat ≤ t + policy.toleranceNs)
    (hnow : k.now ≤ t) : (gcraSchedule policy tat k).1 ≤ t + policy.toleranceNs := by
  have deadline := Nat.add_le_add_right hnow policy.toleranceNs
  by_cases fits : max k.now tat + policy.incrementNs k.len ≤ k.now + policy.toleranceNs
  · rw [gcraSchedule_admitted fits]
    exact fits.trans deadline
  · rw [gcraSchedule_rejected fits]
    exact htat

theorem fixedWindowExact_kept {s : LimitState} (hs : s.a ≤ policy.allowance ∧ s.b ≤ t)
    (hnow : now ≤ t) :
    (fixedWindowExact policy s now len).1.a ≤ policy.allowance ∧
      (fixedWindowExact policy s now len).1.b ≤ t := by
  have rolled : (fixedRolled policy s now).a ≤ policy.allowance ∧
      (fixedRolled policy s now).b ≤ t := by
    unfold fixedRolled
    split
    · exact ⟨Nat.zero_le _, hnow⟩
    · exact hs
  unfold fixedWindowExact
  dsimp only
  split
  next fits => exact ⟨fits, rolled.2⟩
  next => exact rolled

theorem rotated_clock {w : ℕ} {s : LimitState} (hc : s.c ≤ t) (hnow : now ≤ t) :
    (rotated w s now).c ≤ t := by
  unfold rotated
  split
  · exact hnow
  · split
    · exact hnow
    · split
      next hover => exact hover.trans hnow
      next => exact hc

theorem slidingWindowCounterExact_kept {s : LimitState} (hs : WindowsFit policy s ∧ s.c ≤ t)
    (hnow : now ≤ t) :
    WindowsFit policy (slidingWindowCounterExact policy s now len).1 ∧
      (slidingWindowCounterExact policy s now len).1.c ≤ t := by
  have fit := hs.1.rotated policy.windowNs now
  have hclock := rotated_clock (w := policy.windowNs) hs.2 hnow
  unfold slidingWindowCounterExact
  dsimp only
  split
  next fits => exact ⟨⟨fit.a_le, by dsimp only; omega⟩, hclock⟩
  next => exact ⟨fit, hclock⟩

/-- What the ring holds after one more packet was held before, or is the packet. -/
theorem mem_logged {ring : SwlRing} {k : Packet} {e : SwlEntry}
    (h : e ∈ (ring.logged k).entries.toList) : e ∈ ring.entries.toList ∨ e = k.entry := by
  rw [SwlRing.logged, Vector.toList_set] at h
  exact List.mem_or_eq_of_mem_set h

theorem swlPoliceExact_kept {ring : SwlRing}
    (hs : PolicedLens ring.entries.toList ∧ ∀ e ∈ ring.entries.toList, e.tsNs ≤ t)
    (hnow : now ≤ t) (hlen : len ≤ maxPolicedLen) :
    PolicedLens (swlPoliceExact policy ring now len).1.entries.toList ∧
      ∀ e ∈ (swlPoliceExact policy ring now len).1.entries.toList, e.tsNs ≤ t := by
  unfold swlPoliceExact
  split
  · refine ⟨?_, ?_⟩
    · intro e he
      rcases mem_logged he with he | rfl
      · exact hs.1 e he
      · exact hlen
    · intro e he
      rcases mem_logged he with he | rfl
      · exact hs.2 e he
      · exact hnow
  · exact hs

end Kept

/-- What an operation may be besides exact: a subtraction written to stop at zero, or the
window bound of the log before the clock has reached the window. -/
def ExcusedOp (policy : LimitPolicy) (now : ℕ) (op : ArithOp) : Prop :=
  op.Clamps ∨ policy.algorithm = algoSlidingWindowLog ∧ now < policy.windowNs ∧
    op = .sub now policy.windowNs

/-- The packet wraps nothing that is not excused and keeps the artifacts. -/
def StepsWithin (policy : LimitPolicy) (t : ℕ) (s : StateArtifacts) (k : Packet) : Prop :=
  ∃ v, Traced.Yields (ExcusedOp policy k.now) (policeArtifacts policy s k.now k.len) v ∧
    ArtifactsBy policy t v.1

section Steps

variable {policy : LimitPolicy} {t : ℕ} {s : StateArtifacts} {k : Packet}

theorem clamps_excused (op : ArithOp) (h : op.Clamps) : ExcusedOp policy k.now op := Or.inl h

theorem cost_lt (hk : k.Policed) : k.len * nbytesPerByte < 2 ^ 64 := by
  have hlen := hk.2
  unfold maxPolicedLen at hlen
  unfold nbytesPerByte
  omega

theorem stepsWithin_token (h : BucketBounds policy) (ha : policy.algorithm = algoTokenBucket)
    (ht : t < 2 ^ 64) (hs : ArtifactsBy policy t s) (hnow : k.now ≤ t) (hk : k.Policed) :
    StepsWithin policy t s k := by
  rw [artifactsBy_token ha] at hs
  have hv : Traced.Yields (ExcusedOp policy k.now) (policeState policy s.state k.now k.len)
      (tokenBucketExact policy s.state k.now (costNbytes k.len)) := by
    rw [policeState_token ha]
    exact .tokenBucket h (by omega) hs.1 (Or.inl (cost_lt hk))
  exact ⟨_, .onState (by rw [ha]; decide) hv,
    (artifactsBy_token ha).mpr (tokenBucketExact_kept hs hnow)⟩

theorem stepsWithin_leaky (h : BucketBounds policy) (ha : policy.algorithm = algoLeakyBucket)
    (ht : t < 2 ^ 64) (hs : ArtifactsBy policy t s) (hnow : k.now ≤ t) (hk : k.Policed) :
    StepsWithin policy t s k := by
  rw [artifactsBy_leaky ha] at hs
  have hv : Traced.Yields (ExcusedOp policy k.now) (policeState policy s.state k.now k.len)
      (leakyBucketExact policy s.state k.now (costNbytes k.len)) := by
    rw [policeState_leaky ha]
    exact .leakyBucket h (by omega) (Or.inl (cost_lt hk)) clamps_excused
  exact ⟨_, .onState (by rw [ha]; decide) hv,
    (artifactsBy_leaky ha).mpr (leakyBucketExact_kept hs hnow)⟩

theorem stepsWithin_gcra (h : BucketBounds policy) (ha : policy.algorithm = algoGcra)
    (ht : t < 2 ^ 63) (hs : ArtifactsBy policy t s) (hnow : k.now ≤ t) (hk : k.Policed) :
    StepsWithin policy t s k := by
  rw [artifactsBy_gcra ha] at hs
  have hv : Traced.Yields (ExcusedOp policy k.now) (policeState policy s.state k.now k.len)
      (gcraExact policy s.state k.now k.len) := by
    rw [policeState_gcra ha]
    exact .gcra h (by omega) (by omega) hk.2
  refine ⟨_, .onState (by rw [ha]; decide) hv, (artifactsBy_gcra ha).mpr ?_⟩
  rw [(answer_of_eq (gcraExact_eq policy s.state k.now k.len)).1]
  exact gcraSchedule_kept hs hnow

theorem stepsWithin_fixed (h : WindowBounds policy) (ha : policy.algorithm = algoFixedWindow)
    (ht : t + policy.windowNs < 2 ^ 64) (hs : ArtifactsBy policy t s) (hnow : k.now ≤ t) (hk : k.Policed) :
    StepsWithin policy t s k := by
  rw [artifactsBy_fixed ha] at hs
  have hv : Traced.Yields (ExcusedOp policy k.now) (policeState policy s.state k.now k.len)
      (fixedWindowExact policy s.state k.now k.len) := by
    rw [policeState_fixed ha]
    exact .fixedWindow h hs.1 (by omega) (Or.inl hk.2)
  exact ⟨_, .onState (by rw [ha]; decide) hv,
    (artifactsBy_fixed ha).mpr (fixedWindowExact_kept hs hnow)⟩

theorem stepsWithin_swc (h : WindowBounds policy)
    (ha : policy.algorithm = algoSlidingWindowCounter)
    (ht : t + 2 * policy.windowNs < 2 ^ 64) (hs : ArtifactsBy policy t s) (hnow : k.now ≤ t) (hk : k.Policed) :
    StepsWithin policy t s k := by
  rw [artifactsBy_swc ha] at hs
  have hv : Traced.Yields (ExcusedOp policy k.now) (policeState policy s.state k.now k.len)
      (slidingWindowCounterExact policy s.state k.now k.len) := by
    rw [policeState_swc ha]
    exact .slidingWindowCounter h hs.1 (by omega) (Or.inl hk.2) clamps_excused
  exact ⟨_, .onState (by rw [ha]; decide) hv,
    (artifactsBy_swc ha).mpr (slidingWindowCounterExact_kept hs hnow)⟩

theorem stepsWithin_swl (h : WindowBounds policy) (ha : policy.algorithm = algoSlidingWindowLog)
    (hs : ArtifactsBy policy t s) (hnow : k.now ≤ t) (hk : k.Policed) :
    StepsWithin policy t s k := by
  rw [artifactsBy_swl ha] at hs
  have hsub : policy.windowNs ≤ k.now ∨ ExcusedOp policy k.now (.sub k.now policy.windowNs) := by
    rcases Nat.lt_or_ge k.now policy.windowNs with early | late
    · exact Or.inr (Or.inr ⟨ha, early, rfl⟩)
    · exact Or.inl late
  exact ⟨_, .onRing ha (.swlPolice h hs.1 hk.2 hsub),
    (artifactsBy_swl ha).mpr (swlPoliceExact_kept hs hnow hk.2)⟩

end Steps

/-- One packet of an accepted policy: no operation wraps, and the artifacts stay as they
are supposed to be. -/
theorem policeArtifacts_step {p : DirPolicy} (h : p.Bounded) {t : ℕ} (ht : t < 2 ^ 63)
    {s : StateArtifacts} (hs : ArtifactsBy p.installed t s) {k : Packet} (hnow : k.now ≤ t)
    (hk : k.Policed) : StepsWithin p.installed t s k := by
  have known : KnownAlgo p.installed.algorithm := h.algorithm
  have windowed : isWindowAlgo p.installed.algorithm → WindowBounds p.installed := h.windowBounds
  rcases known.cases with ha | ha | ha | ha | ha | ha
  · exact stepsWithin_token h.bucketBounds ha (by omega) hs hnow hk
  · exact stepsWithin_leaky h.bucketBounds ha (by omega) hs hnow hk
  · exact stepsWithin_gcra h.bucketBounds ha ht hs hnow hk
  · have hwindow := windowed (by rw [ha]; decide)
    have hwide := hwindow.window_le
    exact stepsWithin_fixed hwindow ha (by omega) hs hnow hk
  · have hwindow := windowed (by rw [ha]; decide)
    have hwide := hwindow.window_le
    exact stepsWithin_swc hwindow ha (by omega) hs hnow hk
  · exact stepsWithin_swl (windowed (by rw [ha]; decide)) ha hs hnow hk

theorem StepsWithin.kept {policy : LimitPolicy} {t : ℕ} {s : StateArtifacts} {k : Packet}
    (h : StepsWithin policy t s k) : ArtifactsBy policy t (policer policeArtifacts policy s k).1 := by
  obtain ⟨v, hv, kept⟩ := h
  unfold policer
  rw [hv.val_eq]
  exact kept

/-- A run of packets none of which wraps keeps the artifacts. -/
theorem artifactsBy_run {policy : LimitPolicy} (known : KnownAlgo policy.algorithm) {t : ℕ}
    (step : ∀ s k, ArtifactsBy policy t s → k.now ≤ t ∧ k.Policed → StepsWithin policy t s k)
    (ks : List Packet) (hks : ∀ k ∈ ks, k.now ≤ t ∧ k.Policed) :
    ArtifactsBy policy t ((policer policeArtifacts policy).stateAfter {} ks) :=
  Mealy.stateAfter_keeps (fun s k hs hk => (step s k hs hk).kept) ks ({} : StateArtifacts)
    (artifactsBy_zeroed known t) hks

/-- Every run of packets keeps the artifacts of an accepted policy. -/
theorem policeArtifacts_run {p : DirPolicy} (h : p.Bounded) {t : ℕ} (ht : t < 2 ^ 63)
    (ks : List Packet) (hks : ∀ k ∈ ks, k.now ≤ t ∧ k.Policed) :
    ArtifactsBy p.installed t ((policer policeArtifacts p.installed).stateAfter {} ks) :=
  artifactsBy_run h.algorithm (fun _ _ hs hk => policeArtifacts_step h ht hs hk.1 hk.2) ks hks

end VmWatcher

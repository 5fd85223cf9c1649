import VmWatcher.Core.Proofs.Recovery
import VmWatcher.Ebpf.Proofs.Artifacts

/-!
# What can be admitted at all, and after idleness

`max_admissible_frame_bytes` against the verdicts of the six algorithms: which longer
frames get through, and that every frame within the size gets through once the flow was
idle for long enough.
-/

namespace VmWatcher

/-! ### Verdicts -/

section Verdicts

variable {policy : LimitPolicy} {s : StateArtifacts} {k : Packet}

theorem verdict_state (h : policy.algorithm ≠ algoSlidingWindowLog) :
    (policer policeArtifacts policy s k).2 = (policeState policy s.state k.now k.len).val.2 := by
  unfold policer
  rw [policeArtifacts_state h]
  simp only [Traced.val_bind, Traced.val_pure]

theorem verdict_ring (h : policy.algorithm = algoSlidingWindowLog) :
    (policer policeArtifacts policy s k).2 = (swlPolice policy s.ring k.now k.len).val.2 := by
  unfold policer
  rw [policeArtifacts_ring h]
  simp only [Traced.val_bind, Traced.val_pure]

/-- `gcra` whatever its sums do: they are taken modulo `2 ^ 64`. -/
theorem gcra_val (h : BucketBounds policy) {state : LimitState} {now len : ℕ}
    (hlen : len ≤ maxPolicedLen) :
    (gcra policy state now len).val =
      let candidate := (max now state.a + policy.incrementNs len) % 2 ^ 64
      let deadline := (now + policy.toleranceNs) % 2 ^ 64
      ({ state with a := if candidate ≤ deadline then candidate else state.a },
        decide (candidate ≤ deadline)) := by
  have hrate := h.rate_ge
  have hburst := h.burst_le
  unfold maxPolicedLen at hlen
  refine (show Traced.Yields (fun _ => True) _ _ from ?_).val_eq
  unfold gcra
  refine .bind (.mul (by unfold bitsPerByte; omega)) ?_
  refine .bind (.mul (by unfold bitsPerByte nsPerSec; omega)) ?_
  refine .bind (.div (by omega)) ?_
  refine .bind (.mul (by unfold bitsPerByte; omega)) ?_
  refine .bind (.mul (by unfold bitsPerByte nsPerSec; omega)) ?_
  refine .bind (.div (by omega)) ?_
  have hbase : (if now > state.a then now else state.a) = max now state.a := by
    rw [clock_eq_max, max_comm]
  simp only [hbase]
  refine .bind (v := (max now state.a + policy.incrementNs len) % 2 ^ 64)
    (.add_wrapped (Or.inr trivial)) ?_
  refine .bind (v := (now + policy.toleranceNs) % 2 ^ 64) (.add_wrapped (Or.inr trivial)) ?_
  refine (Traced.Yields.pure _).of_eq ?_
  simp only [decide_eq_true_eq]

theorem windowAllowance_val (h : WindowBounds policy) :
    (windowAllowance policy).val = policy.allowance :=
  (Traced.Yields.windowAllowance h : Traced.Yields (fun _ => False) _ _).val_eq

/-- A length over the allowance takes every sum with it, also one that stops at `u64::MAX`. -/
theorem not_saturatingAdd_le (h : WindowBounds policy) {len : ℕ} (long : policy.allowance < len)
    (x : ℕ) : ¬ (Traced.saturatingAdd x len).val ≤ policy.allowance := by
  have hallowance := h.allowance_le
  change ¬ min (x + len) (2 ^ 64 - 1) ≤ policy.allowance
  omega

theorem fixedWindow_rejects (h : WindowBounds policy) {state : LimitState} {now len : ℕ}
    (long : policy.allowance < len) : (fixedWindow policy state now len).val.2 = false := by
  have hwindow := h.window_ge
  unfold fixedWindow
  rw [if_neg (by omega), Traced.val_bind, Traced.val_bind, Traced.val_bind, windowAllowance_val h,
    if_neg (not_saturatingAdd_le h long _)]
  rfl

theorem slidingWindowCounter_rejects (h : WindowBounds policy) {state : LimitState} {now len : ℕ}
    (long : policy.allowance < len) :
    (slidingWindowCounter policy state now len).val.2 = false := by
  have hwindow := h.window_ge
  unfold slidingWindowCounter
  dsimp only
  rw [if_neg (by omega), Traced.val_bind, Traced.val_bind, Traced.val_bind, Traced.val_bind,
    Traced.val_bind, Traced.val_bind, windowAllowance_val h,
    if_neg (not_saturatingAdd_le h long _)]
  rfl

theorem swlPolice_rejects (h : WindowBounds policy) {ring : SwlRing} {now len : ℕ}
    (long : policy.allowance < len) : (swlPolice policy ring now len).val.2 = false := by
  have hwindow := h.window_ge
  unfold swlPolice
  rw [if_neg (by omega), Traced.val_bind, Traced.val_bind, Traced.val_bind, windowAllowance_val h,
    if_neg (not_saturatingAdd_le h long _)]
  rfl

end Verdicts

/-! ### Frames longer than the policy's size -/

/-- The verdict on a packet after a run of packets from the zeroed artifacts. -/
def admits (p : DirPolicy) (ks : List Packet) (k : Packet) : Bool :=
  (policer policeArtifacts p.installed
    ((policer policeArtifacts p.installed).stateAfter {} ks) k).2

/-- With clock readings below `clock`, no frame longer than the policy's size is ever
admitted. -/
def NeverAdmitsLonger (p : DirPolicy) (clock : ℕ) : Prop :=
  ∀ (ks : List Packet) (k : Packet), (∀ x ∈ ks, x.now < clock ∧ x.Policed) → k.now < clock →
    k.len ≤ maxPolicedLen → p.maxAdmissibleFrameBytes < k.len → admits p ks k = false

/-- Frames of every policed size can be admitted. -/
def AdmitsEverySize (p : DirPolicy) (clock : ℕ) : Prop :=
  ∀ len, 1 ≤ len → len ≤ maxPolicedLen → ∃ (ks : List Packet) (k : Packet),
    (∀ x ∈ ks, x.now < clock ∧ x.Policed) ∧ k.now < clock ∧ k.len = len ∧ admits p ks k = true

/-- The size the operator is warned about is the real limit. -/
def WarnedSizeIsReal (p : DirPolicy) (clock : ℕ) : Prop :=
  NeverAdmitsLonger p clock ∧
    ∀ scope dir, (smallBurstWarning scope dir p).isSome → ¬ AdmitsEverySize p clock

theorem warnedSizeIsReal_iff {p : DirPolicy} {clock : ℕ} :
    WarnedSizeIsReal p clock ↔ NeverAdmitsLonger p clock := by
  refine ⟨And.left, fun h => ⟨h, fun scope dir warned every => ?_⟩⟩
  have small : p.maxAdmissibleFrameBytes < maxPolicedLen := by
    by_contra large
    simp [smallBurstWarning, large] at warned
  obtain ⟨ks, k, hks, hnow, hlen, admitted⟩ := every maxPolicedLen (by decide) le_rfl
  have rejected := h ks k hks hnow (by omega) (by omega)
  rw [rejected] at admitted
  cases admitted

theorem maxAdmissible_bucket {p : DirPolicy} (bucket : isBucketAlgo p.algorithm) :
    p.maxAdmissibleFrameBytes = p.installed.burstBytes := by
  rw [DirPolicy.maxAdmissibleFrameBytes, not_isWindowAlgo bucket]
  rfl

section Longer

variable {p : DirPolicy} (h : p.Bounded)
include h

/-- Every algorithm but GCRA rejects what is longer than the policy's size. -/
theorem neverAdmitsLonger_of_ne_gcra (hne : p.algorithm ≠ algoGcra) :
    NeverAdmitsLonger p (2 ^ 64) := by
  intro ks k hks hnow hlen long
  have hcost := costNbytes_eq hlen
  have known : KnownAlgo p.installed.algorithm := h.algorithm
  have hks' : ∀ x ∈ ks, x.now ≤ 2 ^ 64 - 1 ∧ x.Policed := fun x hx =>
    ⟨Nat.le_pred_of_lt (hks x hx).1, (hks x hx).2⟩
  have windowed : isWindowAlgo p.installed.algorithm →
      WindowBounds p.installed ∧ p.installed.allowance < k.len := fun window =>
    ⟨h.windowBounds window, by rw [h.allowance_eq window]; exact long⟩
  have bucket : isBucketAlgo p.installed.algorithm → p.installed.capacity < costNbytes k.len := by
    intro bucket
    rw [maxAdmissible_bucket bucket] at long
    rw [hcost, LimitPolicy.capacity, Nat.mul_comm]
    exact Nat.mul_lt_mul_of_pos_left long (by decide)
  unfold admits
  rcases known.cases with ha | ha | ha | ha | ha | ha
  · have reached := artifactsBy_run known (fun s x hs hx =>
      stepsWithin_token h.bucketBounds ha (by decide) hs hx.1 hx.2) ks hks'
    rw [artifactsBy_token ha] at reached
    have small := bucket (by rw [ha]; decide)
    rw [verdict_state (by rw [ha]; decide), policeState_token ha]
    rw [(Traced.Yields.tokenBucket h.bucketBounds hnow reached.1 (Or.inr trivial) :
      Traced.Yields (fun _ => True) _ _).val_eq]
    have hrefilled := refilledTokens_le k.now reached.1
    exact decide_eq_false (by omega)
  · have small := bucket (by rw [ha]; decide)
    rw [verdict_state (by rw [ha]; decide), policeState_leaky ha]
    rw [(Traced.Yields.leakyBucket h.bucketBounds hnow (Or.inr trivial) (fun _ _ => trivial) :
      Traced.Yields (fun _ => True) _ _).val_eq]
    exact decide_eq_false (by omega)
  · exact absurd ha hne
  · obtain ⟨hwindow, hover⟩ := windowed (by rw [ha]; decide)
    rw [verdict_state (by rw [ha]; decide), policeState_fixed ha]
    exact fixedWindow_rejects hwindow hover
  · obtain ⟨hwindow, hover⟩ := windowed (by rw [ha]; decide)
    rw [verdict_state (by rw [ha]; decide), policeState_swc ha]
    exact slidingWindowCounter_rejects hwindow hover
  · obtain ⟨hwindow, hover⟩ := windowed (by rw [ha]; decide)
    rw [verdict_ring ha]
    exact swlPolice_rejects hwindow hover

theorem admits_gcra (ha : p.algorithm = algoGcra) (ks : List Packet) {k : Packet}
    (hlen : k.len ≤ maxPolicedLen) :
    admits p ks k =
      let tat := ((policer policeArtifacts p.installed).stateAfter {} ks).state.a
      decide ((max k.now tat + p.installed.incrementNs k.len) % 2 ^ 64 ≤
        (k.now + p.installed.toleranceNs) % 2 ^ 64) := by
  have ha : p.installed.algorithm = algoGcra := ha
  unfold admits
  rw [verdict_state (by rw [ha]; decide), policeState_gcra ha, gcra_val h.bucketBounds hlen]

end Longer

/-- The emission time of a frame one byte longer than the burst, in whole nanoseconds,
is past the burst tolerance. -/
def BurstRoundsApart (p : DirPolicy) : Prop :=
  p.installed.toleranceNs < p.installed.incrementNs (p.burstBytes + 1)

theorem LimitPolicy.incrementNs_mono (policy : LimitPolicy) {len len' : ℕ} (hle : len ≤ len') :
    policy.incrementNs len ≤ policy.incrementNs len' := by
  unfold LimitPolicy.incrementNs
  exact Nat.div_le_div_right (Nat.mul_le_mul_right _ (Nat.mul_le_mul_right _ hle))

section LongerGcra

variable {p : DirPolicy} (h : p.Bounded) (ha : p.algorithm = algoGcra)
include h ha

/-- Where the rounding keeps the sizes apart, GCRA rejects what is longer than the burst. -/
theorem neverAdmitsLonger_gcra (apart : BurstRoundsApart p) : NeverAdmitsLonger p (2 ^ 63) := by
  intro ks k hks hnow hlen long
  have bucket : isBucketAlgo p.algorithm := by rw [ha]; decide
  rw [maxAdmissible_bucket bucket] at long
  have reached := policeArtifacts_run h (show 2 ^ 63 - 1 < 2 ^ 63 by decide) ks fun x hx =>
    ⟨Nat.le_pred_of_lt (hks x hx).1, (hks x hx).2⟩
  rw [artifactsBy_gcra (show p.installed.algorithm = algoGcra from ha)] at reached
  have htol := h.bucketBounds.toleranceNs_le
  have hinc := h.bucketBounds.incrementNs_le hlen
  have longer := p.installed.incrementNs_mono (show p.burstBytes + 1 ≤ k.len from long)
  have late := Nat.lt_of_lt_of_le apart longer
  rw [admits_gcra h ha ks hlen]
  refine decide_eq_false ?_
  rw [Nat.mod_eq_of_lt (by omega), Nat.mod_eq_of_lt (by omega)]
  omega

/-- Where it does not, a frame one byte longer than the burst gets through at once. -/
theorem not_neverAdmitsLonger_gcra (small : p.burstBytes < maxPolicedLen)
    (same : ¬ BurstRoundsApart p) {clock : ℕ} (hclock : 0 < clock) :
    ¬ NeverAdmitsLonger p clock := by
  intro never
  have bucket : isBucketAlgo p.algorithm := by rw [ha]; decide
  have hlen : p.burstBytes + 1 ≤ maxPolicedLen := small
  have rejected := never [] ⟨0, p.burstBytes + 1⟩ (by simp) hclock hlen
    (by rw [maxAdmissible_bucket bucket]; exact Nat.lt_succ_self _)
  have htol := h.bucketBounds.toleranceNs_le
  unfold BurstRoundsApart at same
  rw [admits_gcra h ha [] hlen] at rejected
  refine absurd (of_decide_eq_false rejected) (not_not.mpr ?_)
  dsimp only [Mealy.stateAfter_nil]
  rw [Nat.mod_eq_of_lt (by omega), Nat.mod_eq_of_lt (by omega)]
  omega

/-- At the very end of the `u64` clock the sum wraps for every burst that is too small. -/
theorem not_neverAdmitsLonger_wrapped (small : p.burstBytes < maxPolicedLen) :
    ¬ NeverAdmitsLonger p (2 ^ 64) := by
  by_cases apart : BurstRoundsApart p
  · intro never
    have bucket : isBucketAlgo p.algorithm := by rw [ha]; decide
    have hlen : p.burstBytes + 1 ≤ maxPolicedLen := small
    have hinc := h.bucketBounds.incrementNs_le hlen
    unfold BurstRoundsApart at apart
    have rejected := never []
      ⟨2 ^ 64 - p.installed.incrementNs (p.burstBytes + 1), p.burstBytes + 1⟩ (by simp)
      (by dsimp only; omega) hlen
      (by rw [maxAdmissible_bucket bucket]; exact Nat.lt_succ_self _)
    rw [admits_gcra h ha [] hlen] at rejected
    refine absurd (of_decide_eq_false rejected) (not_not.mpr ?_)
    dsimp only [Mealy.stateAfter_nil]
    have wrapped : (max (2 ^ 64 - p.installed.incrementNs (p.burstBytes + 1)) 0 +
        p.installed.incrementNs (p.burstBytes + 1)) % 2 ^ 64 = 0 := by
      rw [Nat.max_zero, Nat.sub_add_cancel (by omega), Nat.mod_self]
    rw [wrapped]
    exact Nat.zero_le _
  · exact not_neverAdmitsLonger_gcra h ha small apart (by decide)

end LongerGcra

theorem NeverAdmitsLonger.mono {p : DirPolicy} {clock clock' : ℕ} (hle : clock ≤ clock')
    (h : NeverAdmitsLonger p clock') : NeverAdmitsLonger p clock := fun ks k hks hnow =>
  h ks k (fun x hx => ⟨(hks x hx).1.trans_le hle, (hks x hx).2⟩) (hnow.trans_le hle)

/-- A burst of the largest policed size leaves no longer frame. -/
theorem neverAdmitsLonger_of_large {p : DirPolicy} (large : maxPolicedLen ≤ p.burstBytes)
    (bucket : isBucketAlgo p.algorithm) (clock : ℕ) : NeverAdmitsLonger p clock := by
  intro ks k hks hnow hlen long
  rw [maxAdmissible_bucket bucket] at long
  have : p.installed.burstBytes = p.burstBytes := rfl
  omega

/-- For every policy of an accepted configuration: the size the operator is warned about
is the real limit exactly when GCRA's whole nanoseconds keep the next longer frame apart;
and over all of `u64`, where GCRA's sums wrap, exactly when no frame is longer. -/
theorem warned_size_is_real_iff (cfg : ValidatedConfig) (accepted : cfg.Accepted) (p : DirPolicy)
    (hp : cfg.ResolvesDir p) :
    (WarnedSizeIsReal p (2 ^ 63) ↔
      p.algorithm ≠ algoGcra ∨ maxPolicedLen ≤ p.burstBytes ∨ BurstRoundsApart p) ∧
    (WarnedSizeIsReal p (2 ^ 64) ↔ p.algorithm ≠ algoGcra ∨ maxPolicedLen ≤ p.burstBytes) := by
  have h := accepted.resolvesDir hp
  rw [warnedSizeIsReal_iff, warnedSizeIsReal_iff]
  by_cases ha : p.algorithm = algoGcra
  · have bucket : isBucketAlgo p.algorithm := by rw [ha]; decide
    have large := fun hle => neverAdmitsLonger_of_large (p := p) hle bucket
    refine ⟨⟨?_, ?_⟩, ⟨?_, ?_⟩⟩
    · intro never
      by_contra hnot
      simp only [ha, ne_eq, not_true_eq_false, false_or, not_or, not_le] at hnot
      exact not_neverAdmitsLonger_gcra h ha hnot.1 hnot.2 (by decide) never
    · intro given
      rcases given with hne | hle | apart
      · exact absurd ha hne
      · exact large hle _
      · exact neverAdmitsLonger_gcra h ha apart
    · intro never
      by_contra hnot
      simp only [ha, ne_eq, not_true_eq_false, false_or, not_le] at hnot
      exact not_neverAdmitsLonger_wrapped h ha hnot never
    · intro given
      rcases given with hne | hle
      · exact absurd ha hne
      · exact large hle _
  · have never := neverAdmitsLonger_of_ne_gcra h ha
    exact ⟨⟨fun _ => Or.inl ha, fun _ => never.mono (by decide)⟩,
      ⟨fun _ => Or.inl ha, fun _ => never⟩⟩

def fastLimit : PolicyFields := { Limiter.receiveLimit with
  rxThresholdBps := some 1000000000000
  rxLimitBps := some 1000000000000
  burstBytes := some 65534 }

def fastOnly : DirPolicy := { Limiter.receiveOnly with
  thresholdBps := 1000000000000
  limitBps := 1000000000000
  burstBytes := 65534 }

theorem accepted_fastLimit : (Limiter.oneAddress fastLimit).Accepted := by
  have parsed : (Limiter.oneAddressFile (some { Limiter.receiveLimitEntry with
      rxThreshold := some "1000Gbps"
      rxLimit := some "1000Gbps"
      burst := some "65534B" })).parse (fun _ => .error "") =
      .ok (Limiter.oneAddress fastLimit) := by rfl
  exact ValidatedConfig.accepted_of_parse parsed

theorem resolvesDir_oneAddress {policy : PolicyFields} {p : DirPolicy} {what : String}
    (h : resolve policy none what = .ok ⟨some p, none⟩) :
    (Limiter.oneAddress policy).ResolvesDir p :=
  ⟨⟨some p, none⟩, ⟨_, List.mem_singleton_self _, none, what, nofun, h⟩, Or.inl rfl⟩

theorem resolvesDir_fastOnly : (Limiter.oneAddress fastLimit).ResolvesDir fastOnly :=
  resolvesDir_oneAddress (show resolve fastLimit none "" = _ by rfl)

/-- At 1 Tbps a frame one byte longer than the burst takes no whole nanosecond more: GCRA
admits it, and with it every policed size, although the operator is warned. -/
theorem warned_size_admits_longer :
    (Limiter.oneAddress fastLimit).Accepted ∧ (Limiter.oneAddress fastLimit).ResolvesDir fastOnly ∧
    fastOnly.maxAdmissibleFrameBytes = 65534 ∧ admits fastOnly [] ⟨1000, 65535⟩ = true ∧
    (smallBurstWarning "range vms" "rx" fastOnly).isSome ∧ AdmitsEverySize fastOnly (2 ^ 63) := by
  refine ⟨accepted_fastLimit, resolvesDir_fastOnly, by rfl, by rfl,
    by rfl, fun len _ hlen => ⟨[], ⟨0, len⟩, by simp, Nat.two_pow_pos 63, rfl, ?_⟩⟩
  have bounded := accepted_fastLimit.resolvesDir resolvesDir_fastOnly
  have longest := fastOnly.installed.incrementNs_mono hlen
  have rounds : fastOnly.installed.incrementNs maxPolicedLen = 524 ∧
      fastOnly.installed.toleranceNs = 524 := by decide
  rw [admits_gcra bounded rfl [] hlen]
  refine decide_eq_true ?_
  dsimp only [Mealy.stateAfter_nil]
  rw [rounds.2, Nat.mod_eq_of_lt (by omega)]
  omega

/-- With a burst of 100 KB the size is real, at 1 Tbps with 65534 bytes it is not. -/
theorem warned_size_is_real_iff_fast :
    WarnedSizeIsReal Limiter.receiveOnly (2 ^ 63) ∧ ¬ WarnedSizeIsReal fastOnly (2 ^ 63) := by
  have real := warned_size_is_real_iff _ Limiter.accepted_receiveLimit Limiter.receiveOnly
    (resolvesDir_oneAddress (show resolve Limiter.receiveLimit none "" = _ by rfl))
  have unreal := warned_size_is_real_iff _ accepted_fastLimit fastOnly resolvesDir_fastOnly
  refine ⟨real.1.mpr (Or.inr (Or.inl (by decide))), ?_⟩
  intro h
  have rounds : ¬ BurstRoundsApart fastOnly := by
    have same : fastOnly.installed.toleranceNs =
        fastOnly.installed.incrementNs (fastOnly.burstBytes + 1) := by rfl
    exact fun apart => absurd apart same.not_lt
  rcases unreal.1.mp h with hne | hle | apart
  · exact hne rfl
  · exact absurd hle (by decide)
  · exact rounds apart

end VmWatcher

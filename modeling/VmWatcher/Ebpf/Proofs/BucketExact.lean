import VmWatcher.Ebpf.Policers
import VmWatcher.Misc.Reservoir
import VmWatcher.Misc.VirtualSchedule

/-!
# Token bucket, leaky bucket and GCRA in exact arithmetic

Under the configuration's bounds the three critical sections compute, without a
wrap, one reservoir step or one virtual-scheduling step. Everything the later files
prove about them is proved about these forms.
-/

namespace VmWatcher

/-- What `check_policy_bounds` leaves of a policy for the bucket algorithms: a rate
between 100 Kbps and 1 Tbps and a burst of at most 1 GiB. -/
structure BucketBounds (policy : LimitPolicy) : Prop where
  rate_ge : 100000 ≤ policy.rateBps
  rate_le : policy.rateBps ≤ 1000000000000
  burst_le : policy.burstBytes ≤ 1073741824

instance (policy : LimitPolicy) : Decidable (BucketBounds policy) :=
  decidable_of_iff (100000 ≤ policy.rateBps ∧ policy.rateBps ≤ 1000000000000 ∧
      policy.burstBytes ≤ 1073741824)
    ⟨fun h => ⟨h.1, h.2.1, h.2.2⟩, fun h => ⟨h.1, h.2, h.3⟩⟩

/-- The bucket capacity in nbytes. -/
def LimitPolicy.capacity (policy : LimitPolicy) : ℕ := policy.burstBytes * nbytesPerByte

/-- The refill rate in nbytes per nanosecond. -/
def LimitPolicy.perNs (policy : LimitPolicy) : ℕ := max (policy.rateBps / bitsPerByte) 1

/-- The GCRA burst tolerance in nanoseconds. -/
def LimitPolicy.toleranceNs (policy : LimitPolicy) : ℕ :=
  policy.burstBytes * bitsPerByte * nsPerSec / policy.rateBps

/-- The GCRA emission time of a packet in nanoseconds. -/
def LimitPolicy.incrementNs (policy : LimitPolicy) (len : ℕ) : ℕ :=
  len * bitsPerByte * nsPerSec / policy.rateBps

theorem LimitPolicy.perNs_pos (policy : LimitPolicy) : 0 < policy.perNs :=
  Nat.lt_of_lt_of_le Nat.one_pos (le_max_right _ _)

namespace BucketBounds

variable {policy : LimitPolicy} (h : BucketBounds policy)
include h

theorem capacity_le : policy.capacity ≤ 1073741824000000000 := by
  have := h.burst_le
  unfold LimitPolicy.capacity nbytesPerByte
  omega

theorem perNs_eq : policy.perNs = policy.rateBps / bitsPerByte := by
  have := h.rate_ge
  unfold LimitPolicy.perNs bitsPerByte
  omega

theorem toleranceNs_le : policy.toleranceNs ≤ 85899345920000 := by
  have hrate := h.rate_ge
  have hburst := h.burst_le
  unfold LimitPolicy.toleranceNs bitsPerByte nsPerSec
  calc policy.burstBytes * 8 * 1000000000 / policy.rateBps
      ≤ policy.burstBytes * 8 * 1000000000 / 100000 := Nat.div_le_div_left hrate (by decide)
    _ ≤ 85899345920000 := by omega

theorem incrementNs_le {len : ℕ} (hlen : len ≤ maxPolicedLen) :
    policy.incrementNs len ≤ 5242800000 := by
  have hrate := h.rate_ge
  unfold maxPolicedLen at hlen
  unfold LimitPolicy.incrementNs bitsPerByte nsPerSec
  calc len * 8 * 1000000000 / policy.rateBps
      ≤ len * 8 * 1000000000 / 100000 := Nat.div_le_div_left hrate (by decide)
    _ ≤ 5242800000 := by omega

end BucketBounds

namespace Traced.Yields

variable {allowed : ArithOp → Prop} {policy : LimitPolicy}

theorem bucketParams (h : BucketBounds policy) :
    Yields allowed (VmWatcher.bucketParams policy) (policy.capacity, policy.perNs) := by
  have hburst := h.burst_le
  unfold VmWatcher.bucketParams
  refine .bind (.mul (by unfold nbytesPerByte; omega)) ?_
  exact .bind (.div (by decide)) (.pure _)

end Traced.Yields

/-- The cost of a packet in nbytes as the code computes it. -/
def costNbytes (len : ℕ) : ℕ := len * nbytesPerByte % 2 ^ 64

theorem costNbytes_eq {len : ℕ} (hlen : len ≤ maxPolicedLen) :
    costNbytes len = nbytesPerByte * len := by
  unfold maxPolicedLen at hlen
  unfold costNbytes nbytesPerByte
  omega

/-- The tokens at `now`, before the packet spends any. A stale `now` refills nothing. -/
def refilledTokens (policy : LimitPolicy) (state : LimitState) (now : ℕ) : ℕ :=
  if state.b ≤ now then Reservoir.refill policy.capacity policy.perNs (now - state.b) state.a
  else state.a

/-- `tokenBucket` for a packet of cost `cost`. -/
def tokenBucketExact (policy : LimitPolicy) (state : LimitState) (now cost : ℕ) :
    LimitState × Bool :=
  let tokens := refilledTokens policy state now
  ({ state with a := if cost ≤ tokens then tokens - cost else tokens, b := max state.b now },
    decide (cost ≤ tokens))

/-- The level at `now`, before the packet adds to it. A stale `now` drains nothing. -/
def drainedLevel (policy : LimitPolicy) (state : LimitState) (now : ℕ) : ℕ :=
  if state.b ≤ now then Reservoir.drain policy.capacity policy.perNs (now - state.b) state.a
  else state.a

/-- `leakyBucket` for a packet of cost `cost`. -/
def leakyBucketExact (policy : LimitPolicy) (state : LimitState) (now cost : ℕ) :
    LimitState × Bool :=
  let level := drainedLevel policy state now
  ({ state with a := if level + cost ≤ policy.capacity then level + cost else level,
                b := max state.b now },
    decide (level + cost ≤ policy.capacity))

/-- The virtual schedule of a GCRA policy. -/
def gcraSchedule (policy : LimitPolicy) : Mealy ℕ Packet Bool :=
  VirtualSchedule.step policy.toleranceNs Packet.now fun k => policy.incrementNs k.len

/-- `gcra` in exact arithmetic: one step of the virtual schedule. -/
def gcraExact (policy : LimitPolicy) (state : LimitState) (now len : ℕ) : LimitState × Bool :=
  let answer := gcraSchedule policy state.a ⟨now, len⟩
  ({ state with a := answer.1 }, answer.2)

theorem gcraExact_eq (policy : LimitPolicy) (state : LimitState) (now len : ℕ) :
    gcraExact policy state now len =
      ({ state with a := (gcraSchedule policy state.a ⟨now, len⟩).1 },
        (gcraSchedule policy state.a ⟨now, len⟩).2) := rfl

/-- The parts of a step on the arrival time, whatever the step is. -/
theorem answer_of_eq {s : LimitState} {answer : LimitState × Bool} {q : ℕ × Bool}
    (h : answer = ({ s with a := q.1 }, q.2)) : answer.1.a = q.1 ∧ answer.2 = q.2 := by
  subst h
  exact ⟨rfl, rfl⟩

theorem refilledTokens_le {policy : LimitPolicy} {state : LimitState} (now : ℕ)
    (ha : state.a ≤ policy.capacity) : refilledTokens policy state now ≤ policy.capacity := by
  unfold refilledTokens
  split
  · exact Reservoir.refill_le_cap
  · exact ha

theorem drainedLevel_le (policy : LimitPolicy) (state : LimitState) (now : ℕ) :
    drainedLevel policy state now ≤ state.a := by
  unfold drainedLevel
  split
  · exact Reservoir.drain_le
  · exact le_rfl

/-- The written-out refill: below the full time the sum stays exact, so the clamp
decides between the sum and the capacity. -/
theorem clamp_refill {capacity perNs elapsed tokens : ℕ}
    (h : ¬ Reservoir.FullTime capacity perNs elapsed) :
    (if tokens + elapsed * perNs > capacity ∨ tokens + elapsed * perNs < tokens then capacity
      else tokens + elapsed * perNs) = Reservoir.refill capacity perNs elapsed tokens := by
  rw [Reservoir.refill_of_not_fullTime h]
  split <;> omega

theorem clock_eq_max (b now : ℕ) : (if now > b then now else b) = max b now := by
  split <;> omega

namespace Traced.Yields

variable {allowed : ArithOp → Prop} {policy : LimitPolicy} {state : LimitState} {now len : ℕ}

theorem tokenBucket (h : BucketBounds policy) (hnow : now < 2 ^ 64)
    (ha : state.a ≤ policy.capacity)
    (hcost : len * nbytesPerByte < 2 ^ 64 ∨ allowed (.mul len nbytesPerByte)) :
    Yields allowed (VmWatcher.tokenBucket policy state now len)
      (tokenBucketExact policy state now (costNbytes len)) := by
  have hcap := h.capacity_le
  have hper := policy.perNs_pos
  have hrefilled := refilledTokens_le now ha
  unfold VmWatcher.tokenBucket
  refine .bind (bucketParams h) ?_
  refine .bind (v := refilledTokens policy state now) ?_ ?_
  · refine branch (?_) (?_)
    · intro hge
      refine .bind (sub hnow hge) (.bind (div hper.ne') ?_)
      rw [refilledTokens, if_pos hge]
      refine branch (?_) (?_)
      · intro full
        exact (Yields.pure _).of_eq (Reservoir.refill_of_fullTime full).symm
      · intro hlt
        have hprod := Reservoir.mul_lt_cap_of_not_fullTime hlt
        rw [Nat.succ_mul] at hprod
        refine .bind (mul (by omega)) (.bind (add (by omega)) ?_)
        exact (Yields.pure _).of_eq (clamp_refill hlt)
    · intro hstale
      exact (Yields.pure _).of_eq (if_neg hstale).symm
  · refine .bind (v := costNbytes len) (mul_wrapped hcost) ?_
    refine .bind (v := if costNbytes len ≤ refilledTokens policy state now then
      refilledTokens policy state now - costNbytes len else refilledTokens policy state now) ?_ ?_
    · simp only [decide_eq_true_eq]
      refine branch (?_) (?_)
      · intro hspend
        exact (sub (by omega) hspend).of_eq (if_pos hspend).symm
      · intro hkeep
        exact (Yields.pure _).of_eq (if_neg hkeep).symm
    · exact (Yields.pure _).of_eq (by rw [tokenBucketExact, clock_eq_max])

theorem leakyBucket (h : BucketBounds policy) (hnow : now < 2 ^ 64)
    (hcost : len * nbytesPerByte < 2 ^ 64 ∨ allowed (.mul len nbytesPerByte))
    (hclamp : ∀ op : ArithOp, op.Clamps → allowed op) :
    Yields allowed (VmWatcher.leakyBucket policy state now len)
      (leakyBucketExact policy state now (costNbytes len)) := by
  have hcap := h.capacity_le
  have hper := policy.perNs_pos
  unfold VmWatcher.leakyBucket
  refine .bind (bucketParams h) ?_
  refine .bind (v := drainedLevel policy state now) ?_ ?_
  · refine branch (?_) (?_)
    · intro hge
      refine .bind (sub hnow hge) (.bind (div hper.ne') ?_)
      rw [drainedLevel, if_pos hge]
      refine branch (?_) (?_)
      · intro full
        exact (Yields.pure _).of_eq (Reservoir.drain_of_fullTime full).symm
      · intro hlt
        have hprod := Reservoir.mul_lt_cap_of_not_fullTime hlt
        rw [Nat.succ_mul] at hprod
        refine .bind (mul (by omega)) ?_
        exact (saturatingSub hclamp).of_eq (Reservoir.drain_of_not_fullTime hlt).symm
    · intro hstale
      exact (Yields.pure _).of_eq (if_neg hstale).symm
  · refine .bind (v := costNbytes len) (mul_wrapped hcost) ?_
    refine .bind (v := decide (drainedLevel policy state now + costNbytes len ≤ policy.capacity))
      ?_ ?_
    · refine branch (?_) (?_)
      · intro hroom
        refine .bind (sub (by omega) hroom) ((Yields.pure _).of_eq ?_)
        exact decide_eq_decide.mpr (Nat.le_sub_iff_add_le hroom)
      · intro hbig
        refine (Yields.pure _).of_eq (decide_eq_false fun hle => hbig ?_).symm
        exact (Nat.le_add_left _ _).trans hle
    · refine .bind (v := if drainedLevel policy state now + costNbytes len ≤ policy.capacity then
        drainedLevel policy state now + costNbytes len else drainedLevel policy state now) ?_ ?_
      · simp only [decide_eq_true_eq]
        refine branch (?_) (?_)
        · intro hfits
          exact (add (by omega)).of_eq (if_pos hfits).symm
        · intro hfull
          exact (Yields.pure _).of_eq (if_neg hfull).symm
      · exact (Yields.pure _).of_eq (by rw [leakyBucketExact, clock_eq_max])

/-- The clock is a signed count of nanoseconds, so every deadline fits. -/
theorem gcra (h : BucketBounds policy) (hnow : now < 2 ^ 63)
    (ha : state.a ≤ 2 ^ 63 + policy.toleranceNs) (hlen : len ≤ maxPolicedLen) :
    Yields allowed (VmWatcher.gcra policy state now len) (gcraExact policy state now len) := by
  have hrate := h.rate_ge
  have hburst := h.burst_le
  have htol := h.toleranceNs_le
  have hinc := h.incrementNs_le hlen
  unfold maxPolicedLen at hlen
  unfold VmWatcher.gcra
  refine .bind (mul (by unfold bitsPerByte; omega)) ?_
  refine .bind (mul (by unfold bitsPerByte nsPerSec; omega)) ?_
  refine .bind (div (by omega)) ?_
  refine .bind (mul (by unfold bitsPerByte; omega)) ?_
  refine .bind (mul (by unfold bitsPerByte nsPerSec; omega)) ?_
  refine .bind (div (by omega)) ?_
  have hbase : (if now > state.a then now else state.a) = max now state.a := by
    rw [clock_eq_max, max_comm]
  simp only [hbase]
  refine .bind (v := max now state.a + policy.incrementNs len) (add ?_) ?_
  · change max now state.a + policy.incrementNs len < 2 ^ 64
    omega
  refine .bind (v := now + policy.toleranceNs) (add ?_) ?_
  · change now + policy.toleranceNs < 2 ^ 64
    omega
  refine (Yields.pure _).of_eq ?_
  simp only [gcraExact, gcraSchedule, VirtualSchedule.step, decide_eq_true_eq]
  split <;> simp [*]

end Traced.Yields

end VmWatcher

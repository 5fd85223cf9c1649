import VmWatcher.Ebpf.Proofs.BucketExact

/-!
# Token bucket and leaky bucket over runs of packets

Both buckets enforce burst plus rate over every stretch of calls, whatever order the
clock readings come in, and started full they answer every packet alike.
-/

namespace VmWatcher

variable {policy : LimitPolicy}

/-- A call whose clock reading is a `u64` and whose length `police` lets through. -/
structure Packet.Call (k : Packet) : Prop where
  now_lt : k.now < 2 ^ 64
  policed : k.Policed

/-- The call's elapsed time reached the time the bucket takes to fill, so the code
jumped to the end of the bucket. A stale call has no elapsed time. -/
def fullCall (policy : LimitPolicy) (s : LimitState) (k : Packet) : ℕ :=
  let params := (bucketParams policy).val
  if s.b ≤ k.now ∧ params.1 / params.2 ≤ k.now - s.b then 1 else 0

/-- The bucket holds no more than its capacity. -/
def WithinCapacity (policy : LimitPolicy) (s : LimitState) : Prop := s.a ≤ policy.capacity

theorem withinCapacity_zero : WithinCapacity policy {} := Nat.zero_le _

theorem bucketParams_val (h : BucketBounds policy) :
    (bucketParams policy).val = (policy.capacity, policy.perNs) :=
  (Traced.Yields.bucketParams h : Traced.Yields (fun _ => False) _ _).val_eq

theorem policer_tokenBucket (h : BucketBounds policy) {s : LimitState}
    (hs : WithinCapacity policy s) {k : Packet} (hk : k.now < 2 ^ 64) :
    policer tokenBucket policy s k = tokenBucketExact policy s k.now (costNbytes k.len) :=
  (Traced.Yields.tokenBucket h hk hs (Or.inr trivial) :
    Traced.Yields (fun _ => True) _ _).val_eq

theorem policer_leakyBucket (h : BucketBounds policy) {s : LimitState} {k : Packet}
    (hk : k.now < 2 ^ 64) :
    policer leakyBucket policy s k = leakyBucketExact policy s k.now (costNbytes k.len) :=
  (Traced.Yields.leakyBucket h hk (Or.inr trivial) (fun _ _ => trivial) :
    Traced.Yields (fun _ => True) _ _).val_eq

theorem tokenBucket_withinCapacity (h : BucketBounds policy) (s : LimitState) (k : Packet)
    (hs : WithinCapacity policy s) (hk : k.now < 2 ^ 64) :
    WithinCapacity policy (policer tokenBucket policy s k).1 := by
  have hrefilled := refilledTokens_le k.now hs
  rw [policer_tokenBucket h hs hk]
  simp only [WithinCapacity, tokenBucketExact]
  split <;> omega

theorem leakyBucket_withinCapacity (h : BucketBounds policy) (s : LimitState) (k : Packet)
    (hs : WithinCapacity policy s) (hk : k.now < 2 ^ 64) :
    WithinCapacity policy (policer leakyBucket policy s k).1 := by
  have hdrained := drainedLevel_le policy s k.now
  unfold WithinCapacity at hs
  rw [policer_leakyBucket h hk]
  simp only [WithinCapacity, leakyBucketExact]
  split <;> omega

/-! ### Burst plus rate -/

/-- What a call is credited: the rate for the time `b` moves on, and less than one
nanosecond's worth more when the bucket jumped to its end. -/
def callCredit (policy : LimitPolicy) (m : Mealy LimitState Packet Bool) (s : LimitState)
    (k : Packet) : ℕ :=
  policy.perNs * ((m s k).1.b - s.b) + (policy.perNs - 1) * fullCall policy s k

theorem fullCall_eq (h : BucketBounds policy) {s : LimitState} {k : Packet} (hge : s.b ≤ k.now) :
    (policy.perNs - 1) * fullCall policy s k =
      if Reservoir.FullTime policy.capacity policy.perNs (k.now - s.b) then policy.perNs - 1
      else 0 := by
  simp only [fullCall, bucketParams_val h, hge, true_and]
  split <;> simp

theorem refilledTokens_le_credit (h : BucketBounds policy) (s : LimitState) (k : Packet) :
    refilledTokens policy s k.now ≤
      s.a + (policy.perNs * (max s.b k.now - s.b) + (policy.perNs - 1) * fullCall policy s k) := by
  unfold refilledTokens
  split
  next hge =>
    have gain := Reservoir.refill_le policy.capacity (k.now - s.b) s.a policy.perNs_pos
    rw [fullCall_eq h hge, max_eq_right hge, Nat.mul_comm policy.perNs]
    exact gain
  next => exact Nat.le_add_right _ _

theorem level_le_drained_credit (h : BucketBounds policy) (s : LimitState) (k : Packet)
    (hs : WithinCapacity policy s) :
    s.a ≤ drainedLevel policy s k.now +
      (policy.perNs * (max s.b k.now - s.b) + (policy.perNs - 1) * fullCall policy s k) := by
  unfold drainedLevel
  split
  next hge =>
    have loss := Reservoir.le_drain (k.now - s.b) policy.perNs_pos hs
    rw [fullCall_eq h hge, max_eq_right hge, Nat.mul_comm policy.perNs]
    exact loss
  next => exact Nat.le_add_right _ _

/-- A token bucket call pays for what it admits out of its tokens and its credit. -/
theorem tokenBucket_pays (h : BucketBounds policy) (s : LimitState) (k : Packet)
    (hs : WithinCapacity policy s) (hk : k.Call) :
    nbytesPerByte * admittedBytes (policer tokenBucket policy) s k +
        (policer tokenBucket policy s k).1.a ≤
      s.a + callCredit policy (policer tokenBucket policy) s k := by
  have credit := refilledTokens_le_credit h s k
  have hcost := costNbytes_eq hk.policed.2
  simp only [callCredit, admittedBytes, policer_tokenBucket h hs hk.now_lt, tokenBucketExact,
    decide_eq_true_eq]
  rw [hcost]
  split <;> omega

/-- A leaky bucket call pays for what it admits out of its free room and its credit. -/
theorem leakyBucket_pays (h : BucketBounds policy) (s : LimitState) (k : Packet)
    (hs : WithinCapacity policy s) (hk : k.Call) :
    nbytesPerByte * admittedBytes (policer leakyBucket policy) s k +
        (policy.capacity - (policer leakyBucket policy s k).1.a) ≤
      policy.capacity - s.a + callCredit policy (policer leakyBucket policy) s k := by
  have credit := level_le_drained_credit h s k hs
  have hcost := costNbytes_eq hk.policed.2
  unfold WithinCapacity at hs
  simp only [callCredit, admittedBytes, policer_leakyBucket h hk.now_lt, leakyBucketExact,
    decide_eq_true_eq]
  rw [hcost]
  split <;> omega

/-- Neither bucket moves its timestamp backwards. -/
theorem le_tokenBucket_clock (h : BucketBounds policy) (s : LimitState) (k : Packet)
    (hs : WithinCapacity policy s) (hk : k.now < 2 ^ 64) :
    s.b ≤ (policer tokenBucket policy s k).1.b := by
  rw [policer_tokenBucket h hs hk]
  exact le_max_left _ _

theorem le_leakyBucket_clock (h : BucketBounds policy) (s : LimitState) (k : Packet)
    (hk : k.now < 2 ^ 64) : s.b ≤ (policer leakyBucket policy s k).1.b := by
  rw [policer_leakyBucket h hk]
  exact le_max_left _ _

/-- The bound over one stretch of calls, for a bucket whose calls pay for themselves
out of the potential `pot`. -/
theorem stretch_paid {m : Mealy LimitState Packet Bool} (pot : LimitState → ℕ)
    (keeps : ∀ s k, WithinCapacity policy s → k.Call → WithinCapacity policy (m s k).1)
    (clock : ∀ s k, WithinCapacity policy s → k.Call → s.b ≤ (m s k).1.b)
    (pays : ∀ s k, WithinCapacity policy s → k.Call →
      nbytesPerByte * admittedBytes m s k + pot (m s k).1 ≤ pot s + callCredit policy m s k)
    {s : LimitState} (hs : WithinCapacity policy s) {seg : List Packet}
    (hseg : ∀ k ∈ seg, k.Call) :
    s.b ≤ (m.stateAfter s seg).b ∧
      nbytesPerByte * m.spent (admittedBytes m) s seg ≤
        pot s + (policy.perNs * ((m.stateAfter s seg).b - s.b) +
          (policy.perNs - 1) * m.spent (fullCall policy) s seg) := by
  have gained := Mealy.add_spent_gain keeps clock seg s hs hseg
  have paid := Mealy.spent_le_of_potential keeps pays seg s hs hseg
  unfold callCredit at paid
  rw [Mealy.spent_add, Mealy.spent_mul_left, Mealy.spent_mul_left, Mealy.spent_mul_left] at paid
  have hgain : (m.stateAfter s seg).b - s.b =
      m.spent (fun s k => (m s k).1.b - s.b) s seg := by omega
  rw [hgain]
  omega

/-- Burst plus rate over one stretch of a run from the zeroed state: the admitted
length is at most the capacity, the rate for the time `b` grew, and less than one
nanosecond's worth for each call that jumped to the end of the bucket. -/
def StretchBound (f : LimitPolicy → LimitState → ℕ → ℕ → Traced (LimitState × Bool))
    (policy : LimitPolicy) (pre seg : List Packet) : Prop :=
  let m := policer f policy
  let (capacity, perNs) := (bucketParams policy).val
  let before := m.stateAfter {} pre
  let after := m.stateAfter before seg
  before.b ≤ after.b ∧
    m.spent (admittedBytes m) before seg * nbytesPerByte ≤
      capacity + perNs * (after.b - before.b) + (perNs - 1) * m.spent (fullCall policy) before seg

/-- Token bucket and leaky bucket enforce burst plus rate over every stretch of every
run of calls, stale clock readings included. -/
theorem buckets_enforce_burst_plus_rate (policy : LimitPolicy) (h : BucketBounds policy)
    (pre seg : List Packet) (hcalls : ∀ k ∈ pre ++ seg, k.Call) :
    StretchBound tokenBucket policy pre seg ∧ StretchBound leakyBucket policy pre seg := by
  have hpre : ∀ k ∈ pre, k.Call := fun k hk => hcalls k (List.mem_append_left _ hk)
  have hseg : ∀ k ∈ seg, k.Call := fun k hk => hcalls k (List.mem_append_right _ hk)
  constructor
  · have keeps := fun s (k : Packet) hs (hk : k.Call) =>
      tokenBucket_withinCapacity h s k hs hk.now_lt
    have hs := Mealy.stateAfter_keeps keeps pre {} withinCapacity_zero hpre
    obtain ⟨clock, paid⟩ := stretch_paid LimitState.a keeps
      (fun s k hs hk => le_tokenBucket_clock h s k hs hk.now_lt)
      (tokenBucket_pays h) hs hseg
    unfold WithinCapacity at hs
    simp only [StretchBound, bucketParams_val h]
    rw [Nat.mul_comm _ nbytesPerByte]
    exact ⟨clock, by omega⟩
  · have keeps := fun s (k : Packet) hs (hk : k.Call) =>
      leakyBucket_withinCapacity h s k hs hk.now_lt
    have hs := Mealy.stateAfter_keeps keeps pre {} withinCapacity_zero hpre
    obtain ⟨clock, paid⟩ := stretch_paid (fun s => policy.capacity - s.a) keeps
      (fun s k _ hk => le_leakyBucket_clock h s k hk.now_lt)
      (leakyBucket_pays h) hs hseg
    simp only [StretchBound, bucketParams_val h]
    rw [Nat.mul_comm _ nbytesPerByte]
    exact ⟨clock, by omega⟩

/-- A run with a stale reading and two calls that jump to the end of the bucket. -/
theorem buckets_enforce_burst_plus_rate_stale :
    StretchBound tokenBucket ⟨1, algoTokenBucket, 100000, 1500, 0⟩
        [⟨200000000, 1000⟩] [⟨100, 400⟩, ⟨200000700, 90⟩, ⟨600000000, 1500⟩] ∧
      StretchBound leakyBucket ⟨1, algoTokenBucket, 100000, 1500, 0⟩
        [⟨200000000, 1000⟩] [⟨100, 400⟩, ⟨200000700, 90⟩, ⟨600000000, 1500⟩] :=
  buckets_enforce_burst_plus_rate _ (by decide) _ _
    (by
      intro k hk
      simp only [List.cons_append, List.nil_append, List.mem_cons, List.not_mem_nil,
        or_false] at hk
      rcases hk with rfl | rfl | rfl | rfl <;> exact ⟨by decide, by decide⟩)

/-! ### One policer in two forms -/

/-- Tokens and level share the capacity, and both buckets were last touched at the
same time. -/
def SameBucket (policy : LimitPolicy) (token leaky : LimitState) : Prop :=
  token.a + leaky.a = policy.capacity ∧ token.b = leaky.b

theorem refilledTokens_add_drainedLevel {token leaky : LimitState}
    (hrel : SameBucket policy token leaky) (now : ℕ) :
    refilledTokens policy token now + drainedLevel policy leaky now = policy.capacity := by
  unfold refilledTokens drainedLevel
  rw [hrel.2]
  split
  · exact Reservoir.refill_add_drain hrel.1
  · exact hrel.1

/-- From contents that share the capacity at `now`, both buckets answer alike and
keep sharing. -/
theorem sameBucket_answer (h : BucketBounds policy) {token leaky : LimitState} {k : Packet}
    (hk : k.now < 2 ^ 64) (htoken : WithinCapacity policy token) (hb : token.b = leaky.b)
    (hshare : refilledTokens policy token k.now + drainedLevel policy leaky k.now =
      policy.capacity) :
    (policer tokenBucket policy token k).2 = (policer leakyBucket policy leaky k).2 ∧
      SameBucket policy (policer tokenBucket policy token k).1
        (policer leakyBucket policy leaky k).1 := by
  have hverdict : costNbytes k.len ≤ refilledTokens policy token k.now ↔
      drainedLevel policy leaky k.now + costNbytes k.len ≤ policy.capacity := by omega
  rw [policer_tokenBucket h htoken hk, policer_leakyBucket h hk]
  simp only [tokenBucketExact, leakyBucketExact, SameBucket, hverdict, hb, true_and, and_true]
  split <;> omega

theorem sameBucket_step (h : BucketBounds policy) (token leaky : LimitState) (k : Packet)
    (hrel : SameBucket policy token leaky) (hk : k.now < 2 ^ 64) :
    (policer tokenBucket policy token k).2 = (policer leakyBucket policy leaky k).2 ∧
      SameBucket policy (policer tokenBucket policy token k).1
        (policer leakyBucket policy leaky k).1 := by
  have htoken : WithinCapacity policy token := by
    have := hrel.1
    unfold WithinCapacity
    omega
  exact sameBucket_answer h hk htoken hrel.2 (refilledTokens_add_drainedLevel hrel k.now)

/-- The first call finds both buckets at their ends once the clock has reached the
time a bucket takes to fill. -/
theorem sameBucket_first (h : BucketBounds policy) (k : Packet) (hk : k.now < 2 ^ 64)
    (hfull : policy.capacity / policy.perNs ≤ k.now) :
    (policer tokenBucket policy {} k).2 = (policer leakyBucket policy {} k).2 ∧
      SameBucket policy (policer tokenBucket policy {} k).1
        (policer leakyBucket policy {} k).1 := by
  refine sameBucket_answer h hk withinCapacity_zero rfl ?_
  simp only [refilledTokens, drainedLevel, Nat.zero_le, if_true, Nat.sub_zero]
  rw [Reservoir.refill_of_fullTime hfull, Reservoir.drain_of_fullTime hfull, Nat.add_zero]

/-- Token bucket and leaky bucket are the same policer: from the zeroed state, once
the first clock reading has reached the fill time, they give the same verdict on
every packet and share the capacity after every step. -/
theorem tokenBucket_leakyBucket_agree (policy : LimitPolicy) (h : BucketBounds policy)
    (first : Packet) (rest : List Packet) (hclock : ∀ k ∈ first :: rest, k.now < 2 ^ 64)
    (hfirst : (bucketParams policy).val.1 / (bucketParams policy).val.2 ≤ first.now) :
    (policer tokenBucket policy).outputs {} (first :: rest) =
        (policer leakyBucket policy).outputs {} (first :: rest) ∧
      ∀ done, done <+: rest →
        let token := (policer tokenBucket policy).stateAfter {} (first :: done)
        let leaky := (policer leakyBucket policy).stateAfter {} (first :: done)
        token.a + leaky.a = (bucketParams policy).val.1 ∧ token.b = leaky.b := by
  rw [bucketParams_val h] at hfirst ⊢
  obtain ⟨hout, hrel⟩ := sameBucket_first h first (hclock first (by simp)) hfirst
  have hrest : ∀ k ∈ rest, k.now < 2 ^ 64 := fun k hk => hclock k (List.mem_cons_of_mem _ hk)
  have sim := Mealy.outputs_eq_of_simulation (sameBucket_step h)
  refine ⟨?_, ?_⟩
  · simp only [Mealy.outputs_cons, hout, (sim rest _ _ hrel hrest).1]
  · intro done hdone
    exact (sim done _ _ hrel (fun k hk => hrest k (hdone.subset hk))).2

/-- Three calls at 8 Mbps with a 1000-byte burst: the second one is stale, the third
one is dropped by both. -/
theorem tokenBucket_leakyBucket_agree_stale :
    (policer tokenBucket ⟨1, algoTokenBucket, 8000000, 1000, 0⟩).outputs {}
        [⟨1000000, 600⟩, ⟨5, 300⟩, ⟨1050000, 500⟩] =
      (policer leakyBucket ⟨1, algoTokenBucket, 8000000, 1000, 0⟩).outputs {}
        [⟨1000000, 600⟩, ⟨5, 300⟩, ⟨1050000, 500⟩] :=
  (tokenBucket_leakyBucket_agree _ (by decide) _ _ (by decide) (by decide)).1

end VmWatcher

import VmWatcher.Ebpf.Proofs.Buckets
import Mathlib.Algebra.Order.Ring.Nat
import Mathlib.Tactic.Linarith

/-!
# GCRA over runs of packets

The emission time of a packet is truncated to whole nanoseconds, so GCRA charges a
packet up to one nanosecond's worth of the rate too little. `gcra_rounded_ceiling` is
the ceiling with what the truncation gives away; `gcra_ceiling_iff` says for which
frame lengths the ceiling the configuration asks for is kept. Where a byte costs a
whole number of nanoseconds GCRA is the leaky bucket in another bookkeeping.
-/

namespace VmWatcher

variable {policy : LimitPolicy}

/-- A packet as it reaches the algorithm: the clock is the kernel's signed count of
nanoseconds and `police` has checked the length. -/
structure Packet.Clocked (k : Packet) : Prop where
  now_lt : k.now < 2 ^ 63
  policed : k.Policed

/-- Clock readings in order. -/
def InOrder (ks : List Packet) : Prop := ks.Pairwise fun i j => i.now ≤ j.now

/-- The arrival time is no further ahead than the tolerance allows. -/
def TatBounded (policy : LimitPolicy) (s : LimitState) : Prop :=
  s.a ≤ 2 ^ 63 + policy.toleranceNs

theorem tatBounded_zero : TatBounded policy {} := Nat.zero_le _

/-- `gcra` is one step of the virtual schedule on the arrival time. -/
theorem policer_gcra (h : BucketBounds policy) {s : LimitState} (hs : TatBounded policy s)
    {k : Packet} (hk : k.Clocked) :
    policer gcra policy s k =
      ({ s with a := (gcraSchedule policy s.a k).1 }, (gcraSchedule policy s.a k).2) := by
  obtain ⟨now, len⟩ := k
  exact (Traced.Yields.gcra h hk.now_lt hs hk.policed.2 :
    Traced.Yields (fun _ => False) _ _).val_eq

theorem policer_gcra_fst (h : BucketBounds policy) (s : LimitState) (k : Packet)
    (hs : TatBounded policy s) (hk : k.Clocked) :
    (policer gcra policy s k).1.a = (gcraSchedule policy s.a k).1 :=
  (answer_of_eq (policer_gcra h hs hk)).1

theorem policer_gcra_snd (h : BucketBounds policy) (s : LimitState) (k : Packet)
    (hs : TatBounded policy s) (hk : k.Clocked) :
    (policer gcra policy s k).2 = (gcraSchedule policy s.a k).2 :=
  (answer_of_eq (policer_gcra h hs hk)).2

theorem gcraSchedule_admitted {tat : ℕ} {k : Packet}
    (h : max k.now tat + policy.incrementNs k.len ≤ k.now + policy.toleranceNs) :
    gcraSchedule policy tat k = (max k.now tat + policy.incrementNs k.len, true) :=
  VirtualSchedule.step_admitted h

theorem gcraSchedule_rejected {tat : ℕ} {k : Packet}
    (h : ¬ max k.now tat + policy.incrementNs k.len ≤ k.now + policy.toleranceNs) :
    gcraSchedule policy tat k = (tat, false) :=
  VirtualSchedule.step_rejected h

theorem gcra_tatBounded (h : BucketBounds policy) (s : LimitState) (k : Packet)
    (hs : TatBounded policy s) (hk : k.Clocked) :
    TatBounded policy (policer gcra policy s k).1 := by
  have hnow := hk.now_lt
  unfold TatBounded at hs ⊢
  rw [policer_gcra_fst h s k hs hk]
  exact VirtualSchedule.step_le (by omega) hs

/-- The run of `gcra` is the run of its virtual schedule. -/
theorem gcra_stateAfter (h : BucketBounds policy) {ks : List Packet} (hks : ∀ k ∈ ks, k.Clocked)
    {s : LimitState} (hs : TatBounded policy s) :
    ((policer gcra policy).stateAfter s ks).a = (gcraSchedule policy).stateAfter s.a ks ∧
      TatBounded policy ((policer gcra policy).stateAfter s ks) :=
  ⟨Mealy.stateAfter_view LimitState.a (gcra_tatBounded h) (policer_gcra_fst h) ks s hs hks,
    Mealy.stateAfter_keeps (gcra_tatBounded h) ks s hs hks⟩

/-! ### The rate ceiling -/

/-- After the packets `pre` from a fresh state, `gcra` admits the packet. -/
def GcraAdmits (policy : LimitPolicy) (pre : List Packet) (k : Packet) : Prop :=
  (policer gcra policy ((policer gcra policy).stateAfter {} pre) k).2 = true

/-- The bytes `gcra` admits of a stretch that comes after the packets `pre`. -/
def gcraAdmittedBytes (policy : LimitPolicy) (pre seg : List Packet) : ℕ :=
  (policer gcra policy).spent (admittedBytes (policer gcra policy))
    ((policer gcra policy).stateAfter {} pre) seg

/-- The ceiling for every two admitted packets of a run from a fresh state: what is
admitted from the first through the second is at most the burst plus the rate for
the time between them. -/
def GcraCeiling (policy : LimitPolicy) (ks : List Packet) : Prop :=
  ∀ pre i mid j post, ks = pre ++ i :: (mid ++ j :: post) →
    GcraAdmits policy pre i → GcraAdmits policy (pre ++ i :: mid) j →
      gcraAdmittedBytes policy pre (i :: (mid ++ [j])) * 8 * 10 ^ 9 ≤
        policy.burstBytes * 8 * 10 ^ 9 + policy.rateBps * (j.now - i.now)

/-- What truncating an admitted packet's emission time gives away, in bit-nanoseconds. -/
def roundedOff (policy : LimitPolicy) (s : LimitState) (k : Packet) : ℕ :=
  if (policer gcra policy s k).2 then k.len * bitsPerByte * nsPerSec % policy.rateBps else 0

/-- What the virtual schedule charges for a packet in state `s`. -/
def gcraCharge (policy : LimitPolicy) (tat : ℕ) (k : Packet) : ℕ :=
  VirtualSchedule.charge policy.toleranceNs Packet.now (fun k => policy.incrementNs k.len) tat k

theorem gcraCharge_admitted {tat : ℕ} {k : Packet} (h : (gcraSchedule policy tat k).2 = true) :
    gcraCharge policy tat k = policy.incrementNs k.len := if_pos h

theorem gcraCharge_rejected {tat : ℕ} {k : Packet} (h : ¬ (gcraSchedule policy tat k).2 = true) :
    gcraCharge policy tat k = 0 := if_neg h

/-- A packet's length in bit-nanoseconds is what it is charged and what is rounded off. -/
theorem admittedBytes_eq_charge (h : BucketBounds policy) (s : LimitState) (k : Packet)
    (hs : TatBounded policy s) (hk : k.Clocked) :
    bitsPerByte * nsPerSec * admittedBytes (policer gcra policy) s k =
      policy.rateBps * gcraCharge policy s.a k + roundedOff policy s k := by
  unfold admittedBytes roundedOff
  rw [policer_gcra_snd h s k hs hk]
  by_cases admitted : (gcraSchedule policy s.a k).2 = true
  · have parts := Nat.div_add_mod (k.len * bitsPerByte * nsPerSec) policy.rateBps
    rw [if_pos admitted, if_pos admitted, gcraCharge_admitted admitted,
      LimitPolicy.incrementNs, parts]
    ring
  · rw [if_neg admitted, if_neg admitted, gcraCharge_rejected admitted, Nat.mul_zero, Nat.mul_zero]

/-- What a stretch admits is what the schedule charges and what is rounded off. -/
theorem spent_admittedBytes (h : BucketBounds policy) {ks : List Packet}
    (hks : ∀ k ∈ ks, k.Clocked) {s : LimitState} (hs : TatBounded policy s) :
    bitsPerByte * nsPerSec *
        (policer gcra policy).spent (admittedBytes (policer gcra policy)) s ks =
      policy.rateBps * (gcraSchedule policy).spent (gcraCharge policy) s.a ks +
        (policer gcra policy).spent (roundedOff policy) s ks := by
  have charges := Mealy.spent_view LimitState.a (gcra_tatBounded h) (policer_gcra_fst h)
    (fun (s : LimitState) k _ _ => rfl : ∀ s k, TatBounded policy s → Packet.Clocked k →
      gcraCharge policy s.a k = gcraCharge policy s.a k) ks s hs hks
  rw [← charges, ← Mealy.spent_mul_left, ← Mealy.spent_mul_left, ← Mealy.spent_add]
  exact Mealy.spent_congr (gcra_tatBounded h) (admittedBytes_eq_charge h) ks s hs hks

/-- The ceiling GCRA keeps: burst plus rate, and what the truncation gave away. -/
theorem gcra_rounded_ceiling (h : BucketBounds policy) {pre mid : List Packet} {i j : Packet}
    (hks : ∀ k ∈ pre ++ i :: (mid ++ [j]), k.Clocked) (hord : InOrder (pre ++ i :: (mid ++ [j])))
    (hj : GcraAdmits policy (pre ++ i :: mid) j) :
    bitsPerByte * nsPerSec * gcraAdmittedBytes policy pre (i :: (mid ++ [j])) ≤
      bitsPerByte * nsPerSec * policy.burstBytes + policy.rateBps * (j.now - i.now) +
        (policer gcra policy).spent (roundedOff policy)
          ((policer gcra policy).stateAfter {} pre) (i :: (mid ++ [j])) := by
  have hpre : ∀ k ∈ pre, k.Clocked := fun k hk => hks k (List.mem_append_left _ hk)
  have hseg : ∀ k ∈ i :: mid ++ [j], k.Clocked := fun k hk =>
    hks k (List.mem_append_right _ hk)
  have hmid : ∀ k ∈ i :: mid, k.Clocked := fun k hk => hseg k (List.mem_append_left _ hk)
  obtain ⟨-, hs⟩ := gcra_stateAfter h hpre tatBounded_zero
  have hstart : ∀ k ∈ i :: mid ++ [j], i.now ≤ k.now := by
    have hstretch := (List.pairwise_append.mp hord).2.1
    intro k hk
    rcases List.mem_cons.mp hk with rfl | hk
    · exact le_rfl
    · exact (List.pairwise_cons.mp hstretch).1 k hk
  have hij := hstart j (by simp)
  unfold GcraAdmits at hj
  rw [Mealy.stateAfter_append] at hj
  unfold gcraAdmittedBytes
  generalize (policer gcra policy).stateAfter {} pre = s at hs hj ⊢
  have paid := spent_admittedBytes h hseg hs
  obtain ⟨htat, hbounded⟩ := gcra_stateAfter h hmid hs
  -- the schedule charges the stretch no more than its time and the tolerance
  rw [policer_gcra_snd h _ j hbounded (hseg j (by simp)), htat] at hj
  have charged := VirtualSchedule.charged_le (Nat.zero_le _) hstart hj
  have htol : policy.rateBps * policy.toleranceNs ≤ bitsPerByte * nsPerSec * policy.burstBytes := by
    calc policy.rateBps * policy.toleranceNs
        ≤ policy.burstBytes * bitsPerByte * nsPerSec := Nat.mul_div_le _ _
      _ = bitsPerByte * nsPerSec * policy.burstBytes := by ring
  have hspent : (gcraSchedule policy).spent (gcraCharge policy) s.a (i :: (mid ++ [j])) ≤
      (j.now - i.now) + policy.toleranceNs := by
    calc (gcraSchedule policy).spent (gcraCharge policy) s.a (i :: (mid ++ [j]))
        ≤ j.now + policy.toleranceNs - i.now := Nat.le_sub_of_add_le' charged
      _ = (j.now - i.now) + policy.toleranceNs := Nat.sub_add_comm hij
  calc bitsPerByte * nsPerSec * (policer gcra policy).spent
          (admittedBytes (policer gcra policy)) s (i :: (mid ++ [j]))
      = policy.rateBps * (gcraSchedule policy).spent (gcraCharge policy) s.a (i :: (mid ++ [j])) +
          (policer gcra policy).spent (roundedOff policy) s (i :: (mid ++ [j])) := paid
    _ ≤ policy.rateBps * ((j.now - i.now) + policy.toleranceNs) +
          (policer gcra policy).spent (roundedOff policy) s (i :: (mid ++ [j])) := by
        gcongr
    _ ≤ bitsPerByte * nsPerSec * policy.burstBytes + policy.rateBps * (j.now - i.now) +
          (policer gcra policy).spent (roundedOff policy) s (i :: (mid ++ [j])) := by
        rw [Nat.mul_add]
        omega

/-- Packets of one length, each arriving as early as the tolerance lets it pass. -/
def pacedPacket (policy : LimitPolicy) (len k : ℕ) : Packet :=
  ⟨(k + 1) * policy.incrementNs len - policy.toleranceNs, len⟩

@[simp] theorem pacedPacket_now (policy : LimitPolicy) (len k : ℕ) :
    (pacedPacket policy len k).now =
      (k + 1) * policy.incrementNs len - policy.toleranceNs := rfl

def pacedRun (policy : LimitPolicy) (len n : ℕ) : List Packet :=
  (List.range n).map (pacedPacket policy len)

theorem inOrder_pacedRun (policy : LimitPolicy) (len n : ℕ) : InOrder (pacedRun policy len n) := by
  refine List.pairwise_map.mpr (List.pairwise_lt_range.imp ?_)
  intro i j hij
  exact Nat.sub_le_sub_right (Nat.mul_le_mul_right _ (by omega)) _

/-- Each paced packet passes and moves the arrival time on by one emission time. -/
theorem paced_step {len k : ℕ} (hinc : policy.incrementNs len ≤ policy.toleranceNs) :
    gcraSchedule policy (k * policy.incrementNs len) (pacedPacket policy len k) =
      ((k + 1) * policy.incrementNs len, true) := by
  have hbase : max ((k + 1) * policy.incrementNs len - policy.toleranceNs)
      (k * policy.incrementNs len) = k * policy.incrementNs len := by
    rw [Nat.succ_mul]
    omega
  have hpass : max ((k + 1) * policy.incrementNs len - policy.toleranceNs)
      (k * policy.incrementNs len) + policy.incrementNs len ≤
      (k + 1) * policy.incrementNs len - policy.toleranceNs + policy.toleranceNs := by
    rw [hbase, Nat.succ_mul]
    omega
  unfold gcraSchedule
  refine (VirtualSchedule.step_admitted hpass).trans ?_
  rw [Nat.succ_mul]
  exact congrArg (fun tat => (tat + policy.incrementNs len, true)) hbase

theorem paced_answer (h : BucketBounds policy) {len k : ℕ}
    (hinc : policy.incrementNs len ≤ policy.toleranceNs) {s : LimitState}
    (hs : TatBounded policy s) (htat : s.a = k * policy.incrementNs len)
    (hk : (pacedPacket policy len k).Clocked) :
    (policer gcra policy s (pacedPacket policy len k)).2 = true ∧
      (policer gcra policy s (pacedPacket policy len k)).1.a =
        (k + 1) * policy.incrementNs len := by
  obtain ⟨hnext, hpass⟩ := Prod.ext_iff.mp (paced_step (k := k) hinc)
  rw [policer_gcra_fst h _ _ hs hk, policer_gcra_snd h _ _ hs hk, htat]
  exact ⟨hpass, hnext⟩

theorem pacedRun_succ (policy : LimitPolicy) (len n : ℕ) :
    pacedRun policy len (n + 1) = pacedRun policy len n ++ [pacedPacket policy len n] := by
  simp only [pacedRun, List.range_succ, List.map_append, List.map_cons, List.map_nil]

theorem pacedRun_succ_eq_cons (policy : LimitPolicy) (len n : ℕ) :
    pacedRun policy len (n + 1) =
      pacedPacket policy len 0 :: (List.range n).map fun k => pacedPacket policy len (k + 1) := by
  simp only [pacedRun, List.range_succ_eq_map, List.map_cons, List.map_map]
  rfl

theorem clocked_pacedRun {len n : ℕ} (hlen : 1 ≤ len ∧ len ≤ maxPolicedLen)
    (hn : n * policy.incrementNs len < 2 ^ 63) : ∀ k ∈ pacedRun policy len n, k.Clocked := by
  intro k hk
  obtain ⟨i, hi, rfl⟩ := List.mem_map.mp hk
  have hle : (i + 1) * policy.incrementNs len ≤ n * policy.incrementNs len :=
    Nat.mul_le_mul_right _ (List.mem_range.mp hi)
  refine ⟨?_, hlen⟩
  calc (i + 1) * policy.incrementNs len - policy.toleranceNs
      ≤ n * policy.incrementNs len := (Nat.sub_le _ _).trans hle
    _ < 2 ^ 63 := hn

/-- A paced run is admitted whole. -/
theorem paced_run (h : BucketBounds policy) {len : ℕ}
    (hinc : policy.incrementNs len ≤ policy.toleranceNs) :
    ∀ n, (∀ k ∈ pacedRun policy len n, k.Clocked) →
      ((policer gcra policy).stateAfter {} (pacedRun policy len n)).a =
          n * policy.incrementNs len ∧
        TatBounded policy ((policer gcra policy).stateAfter {} (pacedRun policy len n)) ∧
        (policer gcra policy).spent (admittedBytes (policer gcra policy)) {}
          (pacedRun policy len n) = n * len := by
  intro n
  induction n with
  | zero =>
    intro _
    exact ⟨by simp [pacedRun], tatBounded_zero, by simp [pacedRun]⟩
  | succ n ih =>
    intro hks
    rw [pacedRun_succ] at hks ⊢
    obtain ⟨htat, hbounded, hspent⟩ := ih fun k hk => hks k (List.mem_append_left _ hk)
    have hk := hks _ (List.mem_append_right _ (List.mem_singleton_self _))
    obtain ⟨hpass, hnext⟩ := paced_answer h hinc hbounded htat hk
    rw [Mealy.stateAfter_concat, Mealy.spent_concat, hspent]
    refine ⟨hnext, gcra_tatBounded h _ _ hbounded hk, ?_⟩
    rw [admittedBytes, if_pos hpass, Nat.succ_mul]
    rfl

theorem paced_admits (h : BucketBounds policy) {len : ℕ}
    (hinc : policy.incrementNs len ≤ policy.toleranceNs) (n : ℕ)
    (hks : ∀ k ∈ pacedRun policy len n, k.Clocked) (k : ℕ) (hk : k < n) :
    GcraAdmits policy (pacedRun policy len k) (pacedPacket policy len k) := by
  have hin : ∀ i, i < n → pacedPacket policy len i ∈ pacedRun policy len n := fun i hi =>
    List.mem_map_of_mem (List.mem_range.mpr hi)
  have hprefix : ∀ p ∈ pacedRun policy len k, p.Clocked := by
    intro p hp
    obtain ⟨i, hi, rfl⟩ := List.mem_map.mp hp
    exact hks _ (hin i ((List.mem_range.mp hi).trans hk))
  obtain ⟨htat, hbounded, -⟩ := paced_run h hinc k hprefix
  exact (paced_answer h hinc hbounded htat (hks _ (hin k hk))).1

theorem gcraAdmittedBytes_pacedRun (h : BucketBounds policy) {len : ℕ}
    (hinc : policy.incrementNs len ≤ policy.toleranceNs) (n : ℕ)
    (hks : ∀ k ∈ pacedRun policy len n, k.Clocked) :
    gcraAdmittedBytes policy [] (pacedRun policy len n) = n * len :=
  (paced_run h hinc n hks).2.2

/-- A remainder lost on every packet outgrows the burst in the end, within the time
that `n` packets take. -/
theorem exists_overspent {rate inc tol lost burst : ℕ} (hrate : 2 ≤ rate) (hlost : 0 < lost)
    (hburst : burst < rate * (tol + 1)) (htime : rate * inc + tol + inc < 2 ^ 63) :
    ∃ n, 2 ≤ n ∧ n * inc < 2 ^ 63 ∧
      burst + rate * (n * inc - tol) < n * (rate * inc + lost) := by
  rcases Nat.eq_zero_or_pos inc with rfl | hpos
  · -- packets for nothing: as many as the burst has bits
    refine ⟨rate * (tol + 1), by nlinarith, by omega, ?_⟩
    calc burst + rate * (rate * (tol + 1) * 0 - tol) = burst := by simp
      _ < rate * (tol + 1) * 1 := by rwa [Nat.mul_one]
      _ ≤ rate * (tol + 1) * (rate * 0 + lost) := Nat.mul_le_mul_left _ (by omega)
  · have hlong : tol < inc * (tol / inc + 1) := Nat.lt_mul_div_succ tol hpos
    have hpacked : inc * (tol / inc) ≤ tol := Nat.mul_div_le tol inc
    generalize tol / inc = packed at hlong hpacked
    have hspan : (rate + packed + 1) * inc = rate * inc + inc * packed + inc := by ring
    refine ⟨rate + packed + 1, by omega, by omega, ?_⟩
    have hreach : tol < (rate + packed + 1) * inc := by
      rw [Nat.mul_succ] at hlong
      omega
    generalize hn : rate + packed + 1 = n at hreach ⊢
    have hcount : rate ≤ n * lost := by nlinarith
    have hbound : rate * (tol + 1) + rate * (n * inc - tol) = rate * (n * inc) + rate := by
      rw [← Nat.mul_add, ← Nat.mul_succ]
      congr 1
      omega
    calc burst + rate * (n * inc - tol)
        < rate * (tol + 1) + rate * (n * inc - tol) := by omega
      _ = rate * (n * inc) + rate := hbound
      _ ≤ rate * (n * inc) + n * lost := by omega
      _ = n * (rate * inc + lost) := by ring

/-- A frame length whose truncated emission time the tolerance still covers breaks the
ceiling. -/
theorem not_gcraCeiling_pacedRun (h : BucketBounds policy) {len : ℕ}
    (hlen : 1 ≤ len ∧ len ≤ maxPolicedLen)
    (hrem : ¬ policy.rateBps ∣ len * bitsPerByte * nsPerSec)
    (hinc : policy.incrementNs len ≤ policy.toleranceNs) :
    ∃ n, (∀ k ∈ pacedRun policy len n, k.Clocked) ∧
      ¬ GcraCeiling policy (pacedRun policy len n) := by
  have hrate := h.rate_ge
  have hincle := h.incrementNs_le hlen.2
  have htolle := h.toleranceNs_le
  have hbits : len * bitsPerByte * nsPerSec ≤ 524280000000000 := by
    have := hlen.2
    unfold maxPolicedLen at this
    unfold bitsPerByte nsPerSec
    omega
  have hparts : policy.rateBps * policy.incrementNs len +
      len * bitsPerByte * nsPerSec % policy.rateBps = len * bitsPerByte * nsPerSec :=
    Nat.div_add_mod _ _
  have hburst : policy.burstBytes * bitsPerByte * nsPerSec <
      policy.rateBps * (policy.toleranceNs + 1) :=
    Nat.lt_mul_div_succ _ (by omega)
  have hlost : 0 < len * bitsPerByte * nsPerSec % policy.rateBps :=
    Nat.pos_of_ne_zero fun hzero => hrem (Nat.dvd_of_mod_eq_zero hzero)
  have htime : policy.rateBps * policy.incrementNs len + policy.toleranceNs +
      policy.incrementNs len < 2 ^ 63 := by omega
  obtain ⟨n, htwo, hspan, hover⟩ := exists_overspent (by omega) hlost hburst htime
  rw [hparts] at hover
  obtain ⟨n, rfl⟩ : ∃ k, n = k + 1 + 1 := ⟨n - 2, by omega⟩
  have hclocked := clocked_pacedRun hlen hspan
  refine ⟨n + 1 + 1, hclocked, ?_⟩
  intro hceiling
  have hsplit : pacedRun policy len (n + 1 + 1) = [] ++ pacedPacket policy len 0 ::
      ((List.range n).map (fun k => pacedPacket policy len (k + 1)) ++
        [pacedPacket policy len (n + 1)]) := by
    rw [pacedRun_succ, pacedRun_succ_eq_cons, List.nil_append, List.cons_append]
  have hall := paced_admits h hinc (n + 1 + 1) hclocked
  have hspent := gcraAdmittedBytes_pacedRun h hinc (n + 1 + 1) hclocked
  have hfirst := hall 0 (by omega)
  have hlast := hall (n + 1) (by omega)
  rw [pacedRun_succ_eq_cons] at hlast
  rw [hsplit] at hspent
  have hle := hceiling _ _ _ _ _ hsplit hfirst hlast
  rw [List.nil_append] at hspent
  rw [hspent] at hle
  have hclock : (pacedPacket policy len (n + 1)).now - (pacedPacket policy len 0).now =
      (n + 1 + 1) * policy.incrementNs len - policy.toleranceNs := by
    have hzero : (0 + 1) * policy.incrementNs len - policy.toleranceNs = 0 := by omega
    rw [pacedPacket_now, pacedPacket_now, hzero, Nat.sub_zero]
  have hbytes : (n + 1 + 1) * (len * bitsPerByte * nsPerSec) = (n + 1 + 1) * len * 8 * 10 ^ 9 := by
    unfold bitsPerByte nsPerSec
    ring
  have hburst' : policy.burstBytes * bitsPerByte * nsPerSec = policy.burstBytes * 8 * 10 ^ 9 := by
    unfold bitsPerByte nsPerSec
    ring
  rw [hclock, ← hbytes, ← hburst'] at hle
  omega

/-- A frame length GCRA polices exactly: its emission time is a whole number of
nanoseconds, or longer than the tolerance, so that it never passes. -/
def ExactLength (policy : LimitPolicy) (len : ℕ) : Prop :=
  policy.rateBps ∣ len * bitsPerByte * nsPerSec ∨ policy.toleranceNs < policy.incrementNs len

theorem roundedOff_eq_zero (h : BucketBounds policy) (s : LimitState) (k : Packet)
    (hs : TatBounded policy s) (hk : k.Clocked ∧ ExactLength policy k.len) :
    roundedOff policy s k = 0 := by
  unfold roundedOff
  rw [policer_gcra_snd h s k hs hk.1]
  by_cases admitted : (gcraSchedule policy s.a k).2 = true
  · rw [if_pos admitted]
    rcases hk.2 with whole | tooLong
    · exact Nat.mod_eq_zero_of_dvd whole
    · have hpass := VirtualSchedule.admitted_iff.mp admitted
      omega
  · exact if_neg admitted

/-- For which frame lengths GCRA enforces the rate as a ceiling: over a set of lengths
every run keeps the ceiling if and only if every length of the set is exact. -/
theorem gcra_ceiling_iff (policy : LimitPolicy) (h : BucketBounds policy) (lengths : Set ℕ) :
    (∀ ks : List Packet, (∀ k ∈ ks, k.Clocked ∧ k.len ∈ lengths) → InOrder ks →
        GcraCeiling policy ks) ↔
      ∀ len ∈ lengths, 1 ≤ len ∧ len ≤ maxPolicedLen → ExactLength policy len := by
  constructor
  · intro ceiling len hmem hlen
    by_contra inexact
    obtain ⟨hrem, hinc⟩ := not_or.mp inexact
    obtain ⟨n, hclocked, hbroken⟩ := not_gcraCeiling_pacedRun h hlen hrem (Nat.le_of_not_lt hinc)
    refine hbroken (ceiling _ (fun k hk => ⟨hclocked k hk, ?_⟩) (inOrder_pacedRun policy len n))
    obtain ⟨i, -, rfl⟩ := List.mem_map.mp hk
    exact hmem
  · intro exact_ ks hks hord pre i mid j post hsplit _ hj
    subst hsplit
    have hsub : pre ++ i :: (mid ++ [j]) <+: pre ++ i :: (mid ++ j :: post) := ⟨post, by simp⟩
    have hstretch : ∀ k ∈ pre ++ i :: (mid ++ [j]), k.Clocked ∧ ExactLength policy k.len := by
      intro k hk
      obtain ⟨hclock, hmem⟩ := hks k (hsub.subset hk)
      exact ⟨hclock, exact_ k.len hmem hclock.policed⟩
    have hbound := gcra_rounded_ceiling h (fun k hk => (hstretch k hk).1)
      (hord.sublist hsub.sublist) hj
    have hpre : ∀ k ∈ pre, k.Clocked := fun k hk => (hstretch k (List.mem_append_left _ hk)).1
    have hs := (gcra_stateAfter h hpre tatBounded_zero).2
    have hlost := Mealy.spent_eq_zero (fun s k hs hk => gcra_tatBounded h s k hs hk.1)
      (roundedOff_eq_zero h) (i :: (mid ++ [j])) _ hs
      (fun k hk => hstretch k (List.mem_append_right _ hk))
    rw [hlost, Nat.add_zero] at hbound
    unfold bitsPerByte nsPerSec at hbound
    omega

/-- At 8 Mbps a byte costs a whole microsecond, so every length is exact. -/
theorem gcra_ceiling_iff_8mbps :
    (∀ ks : List Packet, (∀ k ∈ ks, k.Clocked ∧ k.len ∈ (Set.univ : Set ℕ)) → InOrder ks →
        GcraCeiling ⟨1, algoGcra, 8000000, 15000, 0⟩ ks) ↔
      ∀ len ∈ (Set.univ : Set ℕ), 1 ≤ len ∧ len ≤ maxPolicedLen →
        ExactLength ⟨1, algoGcra, 8000000, 15000, 0⟩ len :=
  gcra_ceiling_iff _ (by decide) Set.univ

/-- At 1 Tbps a frame below 125 bytes costs nothing: two of them pass a burst of 125
bytes in one nanosecond. -/
theorem gcra_exceeds_ceiling :
    BucketBounds ⟨1, algoGcra, 1000000000000, 125, 0⟩ ∧
      (∀ k ∈ [Packet.mk 1000 124, ⟨1000, 124⟩], k.Clocked) ∧
      InOrder [⟨1000, 124⟩, ⟨1000, 124⟩] ∧
      ¬ GcraCeiling ⟨1, algoGcra, 1000000000000, 125, 0⟩ [⟨1000, 124⟩, ⟨1000, 124⟩] := by
  refine ⟨by decide, ?_, by simp [InOrder], ?_⟩
  · intro k hk
    simp only [List.mem_cons, List.not_mem_nil, or_false, or_self] at hk
    subst hk
    exact ⟨by decide, by decide⟩
  · intro ceiling
    have bound := ceiling [] ⟨1000, 124⟩ [] ⟨1000, 124⟩ [] rfl
      (by unfold GcraAdmits; decide) (by unfold GcraAdmits; decide)
    revert bound
    decide

/-! ### GCRA and the leaky bucket -/

/-- The leaky bucket's level is what the arrival time is ahead of its last drain, at
the drain rate, and the packets still to come are in order. -/
structure SameSchedule (policy : LimitPolicy) (g leaky : LimitState) (ks : List Packet) : Prop where
  level_eq : leaky.a = policy.perNs * (g.a - leaky.b)
  tat_le : g.a ≤ leaky.b + policy.toleranceNs
  clocked : ∀ k ∈ ks, k.Clocked
  ordered : InOrder ks
  drained_le : ∀ k ∈ ks, leaky.b ≤ k.now

/-- Where a byte costs a whole number of nanoseconds, the tolerance and every emission
time at the drain rate are the capacity and the cost of the packet. -/
structure WholeNanos (policy : LimitPolicy) : Prop where
  bounds : BucketBounds policy
  capacity_eq : policy.capacity = policy.perNs * policy.toleranceNs
  cost_eq : ∀ len, nbytesPerByte * len = policy.perNs * policy.incrementNs len

theorem wholeNanos_of_dvd {m : ℕ} (h : BucketBounds policy) (hrate : policy.rateBps = 8 * m)
    (hm : m ∣ 10 ^ 9) : WholeNanos policy := by
  obtain ⟨nanos, hnanos⟩ := hm
  have hpos : 0 < m := by
    have := h.rate_ge
    omega
  have hper : policy.perNs = m := by
    rw [h.perNs_eq, hrate]
    exact Nat.mul_div_cancel_left m (by decide)
  have hbyte : nbytesPerByte = m * nanos := by
    rw [← hnanos]
    rfl
  have hdiv : ∀ len, len * bitsPerByte * nsPerSec / policy.rateBps = nanos * len := by
    intro len
    have hbits : len * bitsPerByte * nsPerSec = 8 * m * (nanos * len) := by
      have hsec : nsPerSec = m * nanos := hbyte
      rw [hsec, bitsPerByte]
      ring
    rw [hbits, hrate]
    exact Nat.mul_div_cancel_left _ (by omega)
  refine ⟨h, ?_, ?_⟩
  · rw [LimitPolicy.capacity, LimitPolicy.toleranceNs, hdiv, hper, hbyte]
    ring
  · intro len
    rw [LimitPolicy.incrementNs, hdiv, hper, hbyte]
    ring

namespace SameSchedule

variable {g leaky : LimitState} {k : Packet} {ks : List Packet}

/-- At the packet's time the bucket has drained to what the arrival time is ahead of it. -/
theorem drainedLevel_eq (hw : WholeNanos policy) (hrel : SameSchedule policy g leaky (k :: ks)) :
    drainedLevel policy leaky k.now = policy.perNs * (g.a - k.now) := by
  have hdrained := hrel.drained_le k (by simp)
  have htat := hrel.tat_le
  rw [drainedLevel, if_pos hdrained, hrel.level_eq, hw.capacity_eq,
    Reservoir.drain_mul_rate policy.perNs_pos (by omega)]
  congr 1
  omega

/-- Room for the packet in the bucket is time for it in the schedule. -/
theorem fits_iff (hw : WholeNanos policy) (hrel : SameSchedule policy g leaky (k :: ks)) :
    drainedLevel policy leaky k.now + costNbytes k.len ≤ policy.capacity ↔
      max k.now g.a + policy.incrementNs k.len ≤ k.now + policy.toleranceNs := by
  have hk := (hrel.clocked k (by simp)).policed.2
  rw [hrel.drainedLevel_eq hw, costNbytes_eq hk, hw.cost_eq, hw.capacity_eq, ← Nat.mul_add]
  constructor
  · intro hroom
    have := Nat.le_of_mul_le_mul_left hroom policy.perNs_pos
    omega
  · intro htime
    exact Nat.mul_le_mul_left _ (by omega)

theorem tail (hrel : SameSchedule policy g leaky (k :: ks)) {g' leaky' : LimitState}
    (hb : leaky'.b = k.now) (hlevel : leaky'.a = policy.perNs * (g'.a - k.now))
    (htat : g'.a ≤ k.now + policy.toleranceNs) : SameSchedule policy g' leaky' ks where
  level_eq := hb ▸ hlevel
  tat_le := hb ▸ htat
  clocked := fun p hp => hrel.clocked p (List.mem_cons_of_mem _ hp)
  ordered := (List.pairwise_cons.mp hrel.ordered).2
  drained_le := fun p hp => hb ▸ (List.pairwise_cons.mp hrel.ordered).1 p hp

theorem step (hw : WholeNanos policy) (g leaky : LimitState) (k : Packet) (ks : List Packet)
    (hrel : SameSchedule policy g leaky (k :: ks)) :
    (policer gcra policy g k).2 = (policer leakyBucket policy leaky k).2 ∧
      SameSchedule policy (policer gcra policy g k).1 (policer leakyBucket policy leaky k).1 ks := by
  have hk := hrel.clocked k (by simp)
  have hnow := hk.now_lt
  have hdrained := hrel.drained_le k (by simp)
  have htat := hrel.tat_le
  have hbounded : TatBounded policy g := by
    unfold TatBounded
    omega
  have hfits := hrel.fits_iff hw
  have hlevel := hrel.drainedLevel_eq hw
  have hcost : costNbytes k.len = policy.perNs * policy.incrementNs k.len := by
    rw [costNbytes_eq hk.policed.2, hw.cost_eq]
  rw [policer_gcra hw.bounds hbounded hk,
    policer_leakyBucket hw.bounds (Nat.lt_of_lt_of_le hnow (by decide))]
  by_cases admitted : max k.now g.a + policy.incrementNs k.len ≤ k.now + policy.toleranceNs
  · rw [gcraSchedule_admitted admitted, leakyBucketExact]
    simp only [hfits.mpr admitted, decide_true, if_true, true_and]
    refine hrel.tail (max_eq_right hdrained) ?_ admitted
    rw [hlevel, hcost, ← Nat.mul_add]
    have hahead : g.a - k.now + policy.incrementNs k.len =
        max k.now g.a + policy.incrementNs k.len - k.now := by omega
    exact congrArg (policy.perNs * ·) hahead
  · rw [gcraSchedule_rejected admitted, leakyBucketExact]
    simp only [mt hfits.mp admitted, decide_false, if_false, true_and]
    have hbehind : g.a ≤ k.now + policy.toleranceNs := by omega
    exact hrel.tail (max_eq_right hdrained) hlevel hbehind

end SameSchedule

/-- GCRA and the leaky bucket are the same policer where no rounding occurs: started
from the zeroed state they give the same verdict on every packet, and after every
step the level is what the arrival time is ahead of the last drain. -/
theorem gcra_leakyBucket_agree (policy : LimitPolicy) (m : ℕ) (hrate : policy.rateBps = 8 * m)
    (hm : m ∣ 10 ^ 9) (hge : 100000 ≤ policy.rateBps)
    (hburst : 1 ≤ policy.burstBytes ∧ policy.burstBytes ≤ 2 ^ 30) (ks : List Packet)
    (hks : ∀ k ∈ ks, k.Clocked) (hord : InOrder ks) :
    (policer gcra policy).outputs {} ks = (policer leakyBucket policy).outputs {} ks ∧
      ∀ done, done <+: ks →
        let g := (policer gcra policy).stateAfter {} done
        let leaky := (policer leakyBucket policy).stateAfter {} done
        leaky.a = (bucketParams policy).val.2 * (g.a - leaky.b) := by
  have hbounds : BucketBounds policy := by
    have hle := Nat.le_of_dvd (by decide) hm
    exact ⟨hge, by omega, by omega⟩
  have hw := wholeNanos_of_dvd hbounds hrate hm
  have start : ∀ done, done <+: ks → SameSchedule policy {} {} done := by
    intro done hdone
    exact ⟨by simp, Nat.zero_le _, fun k hk => hks k (hdone.subset hk),
      hord.sublist hdone.sublist, fun _ _ => Nat.zero_le _⟩
  have sim := Mealy.outputs_eq_of_foresight (SameSchedule policy) (SameSchedule.step hw)
  refine ⟨(sim ks {} {} (start ks List.prefix_rfl)).1, ?_⟩
  intro done hdone
  rw [bucketParams_val hbounds]
  exact (sim done {} {} (start done hdone)).2.level_eq

/-- Three packets at 8 Mbps: the third one finds the burst used up. -/
theorem gcra_leakyBucket_agree_8mbps :
    (policer gcra ⟨1, algoGcra, 8000000, 1000, 0⟩).outputs {}
        [⟨1000000, 600⟩, ⟨1000000, 400⟩, ⟨1050000, 500⟩] =
      (policer leakyBucket ⟨1, algoGcra, 8000000, 1000, 0⟩).outputs {}
        [⟨1000000, 600⟩, ⟨1000000, 400⟩, ⟨1050000, 500⟩] :=
  (gcra_leakyBucket_agree ⟨1, algoGcra, 8000000, 1000, 0⟩ 1000000 rfl (by decide) (by decide)
    (by decide) _
    (by
      intro k hk
      simp only [List.mem_cons, List.not_mem_nil, or_false] at hk
      rcases hk with rfl | rfl | rfl <;> exact ⟨by decide, by decide⟩)
    (by simp [InOrder])).1

end VmWatcher

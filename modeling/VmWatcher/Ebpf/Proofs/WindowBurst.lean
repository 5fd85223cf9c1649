import Mathlib.Algebra.Order.Floor.Div
import Mathlib.Data.List.MinMax
import VmWatcher.Ebpf.Proofs.Idle

/-!
# What the window algorithms let through under racing clocks

The packets of one flow reach the critical section in any order of their clock readings.
The fixed window starts at most one window more than the spread of the readings has room
for; the sliding window counter keeps both windows exact and weighs the previous one by
what is left of it.
-/

namespace VmWatcher

/-! ### The fixed window -/

/-- The packet starts a new fixed window. -/
def LimitPolicy.Resets (policy : LimitPolicy) (s : LimitState) (k : Packet) : Prop :=
  s.b = 0 ∨ s.b + policy.windowNs ≤ k.now

instance (policy : LimitPolicy) (s : LimitState) (k : Packet) : Decidable (policy.Resets s k) := by
  unfold LimitPolicy.Resets
  infer_instance

/-- One for a packet that starts a new fixed window. -/
def resetCount (policy : LimitPolicy) (s : LimitState) (k : Packet) : ℕ :=
  if policy.Resets s k then 1 else 0

/-- What is left of the allowance in the current window. -/
def windowRoom (policy : LimitPolicy) (s : LimitState) : ℕ := policy.allowance - s.a

/-- The fixed window in exact arithmetic, as a machine. -/
def fixedMachine (policy : LimitPolicy) : Mealy LimitState Packet Bool :=
  fun s k => fixedWindowExact policy s k.now k.len

section Fixed

variable {policy : LimitPolicy} {s : LimitState} {k : Packet}

theorem fixedRolled_of_resets (h : policy.Resets s k) :
    fixedRolled policy s k.now = { s with a := 0, b := k.now } := if_pos h

theorem fixedRolled_of_stays (h : ¬ policy.Resets s k) : fixedRolled policy s k.now = s := if_neg h

theorem fixedMachine_b : (fixedMachine policy s k).1.b = (fixedRolled policy s k.now).b := by
  unfold fixedMachine fixedWindowExact
  dsimp only
  split <;> rfl

/-- What the packet puts through is added to what the window has used, which stays within
the allowance. -/
theorem fixedMachine_a (fits : s.a ≤ policy.allowance) :
    (fixedMachine policy s k).1.a =
        (fixedRolled policy s k.now).a + admittedBytes (fixedMachine policy) s k ∧
      (fixedMachine policy s k).1.a ≤ policy.allowance := by
  have rolled : (fixedRolled policy s k.now).a ≤ policy.allowance := by
    by_cases resets : policy.Resets s k
    · rw [fixedRolled_of_resets resets]
      exact Nat.zero_le _
    · rw [fixedRolled_of_stays resets]
      exact fits
  unfold admittedBytes fixedMachine fixedWindowExact
  dsimp only
  split
  next room => exact ⟨by simp, room⟩
  next => exact ⟨by simp, rolled⟩

/-- A packet is paid for by what is left of its window, or by the new one it starts. -/
theorem fixedMachine_pays (fits : s.a ≤ policy.allowance) :
    admittedBytes (fixedMachine policy) s k + windowRoom policy (fixedMachine policy s k).1 ≤
      windowRoom policy s + policy.allowance * resetCount policy s k := by
  obtain ⟨used, room⟩ := fixedMachine_a (k := k) fits
  unfold windowRoom resetCount
  by_cases resets : policy.Resets s k
  · rw [fixedRolled_of_resets resets] at used
    rw [if_pos resets]
    dsimp only at used
    omega
  · rw [fixedRolled_of_stays resets] at used
    rw [if_neg resets]
    omega

/-- Once a window has started, every further one starts a window later. -/
theorem resets_after_start {hi : ℕ} (ks : List Packet) :
    ∀ s : LimitState, s.b ≠ 0 → (∀ k ∈ ks, 0 < k.now ∧ k.now ≤ hi) →
      s.b + policy.windowNs * (fixedMachine policy).spent (resetCount policy) s ks ≤ max s.b hi := by
  induction ks with
  | nil =>
    intro s _ _
    exact le_max_left _ _
  | cons k ks ih =>
    intro s started hks
    have hk := hks k List.mem_cons_self
    have rest := ih (fixedMachine policy s k).1
    have tail := fun x hx => hks x (List.mem_cons_of_mem k hx)
    rw [Mealy.spent_cons, resetCount]
    by_cases resets : policy.Resets s k
    · rw [fixedMachine_b, fixedRolled_of_resets resets] at rest
      have later := resets.resolve_left started
      have rest := rest (Nat.pos_iff_ne_zero.mp hk.1) tail
      rw [if_pos resets, Nat.mul_add, Nat.mul_one]
      dsimp only at rest
      omega
    · rw [fixedMachine_b, fixedRolled_of_stays resets] at rest
      rw [if_neg resets, Nat.zero_add]
      exact rest started tail

/-- Readings between `lo` and `hi` start at most one window more than fits between them. -/
theorem resets_le {lo hi : ℕ} (hw : 0 < policy.windowNs) (ks : List Packet) :
    ∀ s : LimitState, (∀ k ∈ ks, 0 < k.now ∧ lo ≤ k.now ∧ k.now ≤ hi) →
      (fixedMachine policy).spent (resetCount policy) s ks ≤ (hi - lo) / policy.windowNs + 1 := by
  induction ks with
  | nil =>
    intro s _
    exact Nat.zero_le _
  | cons k ks ih =>
    intro s hks
    have hk := hks k List.mem_cons_self
    have tail := fun x hx => hks x (List.mem_cons_of_mem k hx)
    rw [Mealy.spent_cons, resetCount]
    by_cases resets : policy.Resets s k
    · have started : (fixedMachine policy s k).1.b = k.now := by
        rw [fixedMachine_b, fixedRolled_of_resets resets]
      have rest : (fixedMachine policy s k).1.b + policy.windowNs *
            (fixedMachine policy).spent (resetCount policy) (fixedMachine policy s k).1 ks ≤
          max (fixedMachine policy s k).1.b hi :=
        resets_after_start ks _ (started ▸ Nat.pos_iff_ne_zero.mp hk.1) fun x hx =>
          ⟨(tail x hx).1, (tail x hx).2.2⟩
      rw [started, Nat.max_eq_right hk.2.2] at rest
      rw [if_pos resets, Nat.add_comm]
      refine Nat.add_le_add_right ((Nat.le_div_iff_mul_le hw).mpr ?_) 1
      rw [Nat.mul_comm]
      omega
    · rw [if_neg resets, Nat.zero_add]
      exact ih _ tail

/-- What a segment of readings between `lo` and `hi` puts through. -/
theorem fixedMachine_burst {lo hi : ℕ} (hw : 0 < policy.windowNs) (ks : List Packet)
    (fits : s.a ≤ policy.allowance) (hks : ∀ k ∈ ks, 0 < k.now ∧ lo ≤ k.now ∧ k.now ≤ hi) :
    (fixedMachine policy).spent (admittedBytes (fixedMachine policy)) s ks ≤
      policy.allowance * ((hi - lo) / policy.windowNs + 2) := by
  have keeps : ∀ (s : LimitState) (k : Packet), s.a ≤ policy.allowance → True →
      (fixedMachine policy s k).1.a ≤ policy.allowance := fun s k fits _ => (fixedMachine_a fits).2
  have pays : ∀ (s : LimitState) (k : Packet), s.a ≤ policy.allowance → True →
      admittedBytes (fixedMachine policy) s k + windowRoom policy (fixedMachine policy s k).1 ≤
        windowRoom policy s + policy.allowance * resetCount policy s k :=
    fun s k fits _ => fixedMachine_pays fits
  have paid := Mealy.spent_le_of_potential keeps pays ks s fits fun _ _ => trivial
  rw [Mealy.spent_mul_left] at paid
  have room : windowRoom policy s ≤ policy.allowance := Nat.sub_le _ _
  have windows := Nat.mul_le_mul_left policy.allowance (resets_le hw ks s hks)
  rw [Nat.mul_add, Nat.mul_one] at windows
  rw [Nat.mul_add]
  omega

end Fixed

/-- The packet's clock reading is positive and leaves room for `windows` windows before the
end of `u64`. -/
def Packet.Timed (policy : LimitPolicy) (windows : ℕ) (k : Packet) : Prop :=
  0 < k.now ∧ k.now + windows * policy.windowNs < 2 ^ 64

section FixedRun

variable {policy : LimitPolicy}

/-- What the fixed window keeps while the end of `u64` is a window away. -/
def FixedKept (policy : LimitPolicy) (s : LimitState) : Prop :=
  s.a ≤ policy.allowance ∧ s.b + policy.windowNs < 2 ^ 64

theorem policer_fixedWindow (h : WindowBounds policy) {s : LimitState} (kept : FixedKept policy s)
    (k : Packet) : policer fixedWindow policy s k = fixedMachine policy s k :=
  (Traced.Yields.fixedWindow h kept.1 kept.2 (Or.inr fun _ => trivial) :
    Traced.Yields (fun _ => True) _ _).val_eq

theorem FixedKept.step (h : WindowBounds policy) (s : LimitState) (k : Packet)
    (kept : FixedKept policy s) (hk : k.Timed policy 1) :
    FixedKept policy (policer fixedWindow policy s k).1 := by
  rw [policer_fixedWindow h kept]
  refine ⟨(fixedMachine_a kept.1).2, ?_⟩
  rw [fixedMachine_b]
  by_cases resets : policy.Resets s k
  · rw [fixedRolled_of_resets resets, ← Nat.one_mul policy.windowNs]
    exact hk.2
  · rw [fixedRolled_of_stays resets]
    exact kept.2

end FixedRun

/-- The fixed window under racing clocks: the readings of a segment that lie between `lo`
and `hi` put at most the allowance through for every whole window between them, and twice
more. -/
theorem fixed_window_burst (cfg : ValidatedConfig) (accepted : cfg.Accepted) (p : DirPolicy)
    (hp : cfg.ResolvesDir p) (ha : p.algorithm = algoFixedWindow)
    (before segment : List Packet) (timed : ∀ k ∈ before ++ segment, k.Timed p.installed 1)
    (lo hi : ℕ) (span : ∀ k ∈ segment, lo ≤ k.now ∧ k.now ≤ hi) :
    let m := policer fixedWindow p.installed
    let admitted := m.spent (admittedBytes m) (m.stateAfter {} before) segment
    let a := (windowAllowance p.installed).val
    admitted ≤ a * ((hi - lo) / p.installed.windowNs + 2) ∧
      (hi - lo < p.installed.windowNs → admitted ≤ 2 * a) := by
  intro m admitted a
  have h := (accepted.resolvesDir hp).windowBounds (by rw [ha]; decide)
  have hwindow := h.window_ge
  have hwide := h.window_le
  have ha : a = p.installed.allowance := windowAllowance_val h
  have zeroed : FixedKept p.installed {} := ⟨Nat.zero_le _, by dsimp only; omega⟩
  have kept := Mealy.stateAfter_keeps (FixedKept.step h) before {} zeroed
    fun k hk => timed k (List.mem_append_left _ hk)
  have same : admitted = (fixedMachine p.installed).spent
      (admittedBytes (fixedMachine p.installed)) (m.stateAfter {} before) segment := by
    refine Mealy.spent_view id (FixedKept.step h) (?_) (?_)
      segment _ kept fun k hk => timed k (List.mem_append_right _ hk)
    · intro s k kept _
      rw [policer_fixedWindow h kept]
      rfl
    · intro s k kept _
      show admittedBytes (policer fixedWindow p.installed) s k = _
      unfold admittedBytes
      rw [policer_fixedWindow h kept]
      rfl
  have burst := fixedMachine_burst (by omega) segment kept.1 fun k hk =>
    ⟨(timed k (List.mem_append_right _ hk)).1, span k hk⟩
  rw [← same, ← ha] at burst
  refine ⟨burst, ?_⟩
  intro short
  rw [Nat.div_eq_of_lt short] at burst
  omega

def fixedLimit : PolicyFields := { counterLimit with algorithm := some algoFixedWindow }

def fixedOnly : DirPolicy := { counterOnly with algorithm := algoFixedWindow }

theorem accepted_fixedLimit : (Limiter.oneAddress fixedLimit).Accepted := by
  have parsed : (Limiter.oneAddressFile (some { Limiter.receiveLimitEntry with
      rxLimit := some "100Kbps"
      algorithm := some "fixed_window"
      limitWindow := some "1s" })).parse (fun _ => .error "") =
      .ok (Limiter.oneAddress fixedLimit) := by rfl
  exact ValidatedConfig.accepted_of_parse parsed

theorem resolvesDir_fixedOnly : (Limiter.oneAddress fixedLimit).ResolvesDir fixedOnly :=
  resolvesDir_oneAddress (show resolve fixedLimit none "" = _ by rfl)

/-- Two packets a nanosecond apart, on both sides of a window's end. -/
theorem fixed_window_burst_at_boundary :
    let m := policer fixedWindow fixedOnly.installed
    let segment := [⟨1999999999, 12500⟩, ⟨2000000000, 12500⟩]
    m.spent (admittedBytes m) (m.stateAfter {} [⟨1000000000, 60⟩]) segment ≤ 2 * 12500 := by
  intro m segment
  have burst := fixed_window_burst _ accepted_fixedLimit fixedOnly resolvesDir_fixedOnly rfl
    [⟨1000000000, 60⟩] segment (by unfold Packet.Timed; decide) 1999999999 2000000000
    (by decide)
  exact burst.2 (by decide)

/-- At the very end of the `u64` clock the end of the window wraps: every packet starts a
new one. -/
theorem fixed_window_wraps :
    let m := policer fixedWindow fixedOnly.installed
    let segment : List Packet := List.replicate 3 ⟨2 ^ 64 - 1, 12500⟩
    (Limiter.oneAddress fixedLimit).Accepted ∧
    (Limiter.oneAddress fixedLimit).ResolvesDir fixedOnly ∧
    (∀ k ∈ segment, 0 < k.now ∧ k.now < 2 ^ 64 ∧ k.Policed) ∧
    ¬ m.spent (admittedBytes m) {} segment ≤ (windowAllowance fixedOnly.installed).val *
      ((2 ^ 64 - 1 - (2 ^ 64 - 1)) / fixedOnly.installed.windowNs + 2) :=
  ⟨accepted_fixedLimit, resolvesDir_fixedOnly, by decide, by decide⟩

/-! ### The sliding window counter -/

/-- An admitted packet and the start of the window that was current when it was. -/
structure Charge where
  start : ℕ
  packet : Packet

/-- The time the packet was into its window, clamped to the window. -/
def Charge.elapsed (policy : LimitPolicy) (q : Charge) : ℕ :=
  min (q.packet.now - q.start) policy.windowNs

theorem Charge.elapsed_le (policy : LimitPolicy) (q : Charge) :
    q.elapsed policy ≤ policy.windowNs := Nat.min_le_right _ _

/-- The charge a packet leaves: none when it is rejected. -/
def charge (m : Mealy LimitState Packet Bool) (s : LimitState) (k : Packet) : Option Charge :=
  if (m s k).2 then some ⟨(m s k).1.c, k⟩ else none

/-- The bytes of the charges that `current` picks. -/
def chargedBytes (charges : List Charge) (current : ℕ → Prop) [DecidablePred current] : ℕ :=
  ((charges.filter fun q => current q.start).map fun q => q.packet.len).sum

/-- The largest elapsed time among the charges of the window that starts at `c`. -/
def latestElapsed (policy : LimitPolicy) (charges : List Charge) (c : ℕ) : ℕ :=
  ((charges.filter fun q => q.start = c).map (Charge.elapsed policy)).foldr max 0

section Charges

variable {charges : List Charge} {current current' : ℕ → Prop} [DecidablePred current]
  [DecidablePred current']

theorem chargedBytes_append (charges charges' : List Charge) :
    chargedBytes (charges ++ charges') current =
      chargedBytes charges current + chargedBytes charges' current := by
  simp only [chargedBytes, List.filter_append, List.map_append, List.sum_append]

theorem chargedBytes_congr (h : ∀ q ∈ charges, current q.start ↔ current' q.start) :
    chargedBytes charges current = chargedBytes charges current' := by
  unfold chargedBytes
  rw [List.filter_congr fun q hq => decide_eq_decide.mpr (h q hq)]

theorem chargedBytes_none (h : ∀ q ∈ charges, ¬ current q.start) :
    chargedBytes charges current = 0 := by
  unfold chargedBytes
  rw [List.filter_eq_nil_iff.mpr fun q hq => by simpa using h q hq]
  rfl

theorem elapsed_le_latest {policy : LimitPolicy} {q : Charge} (hq : q ∈ charges) :
    q.elapsed policy ≤ latestElapsed policy charges q.start :=
  List.le_max_of_le
    (List.mem_map_of_mem (List.mem_filter.mpr ⟨hq, decide_eq_true rfl⟩)) le_rfl

end Charges

/-- What weighing in whole milliseconds and rounding down takes off the previous window. -/
theorem le_carriedBytes_add {w elapsed : ℕ} (wholeMs : nsPerMs ∣ w) (hw : 0 < w)
    (helapsed : elapsed ≤ w) (bytes : ℕ) :
    bytes ≤ carriedBytes bytes w elapsed + bytes * (elapsed + nsPerMs) ⌈/⌉ w := by
  obtain ⟨ms, rfl⟩ := wholeMs
  have hns : 0 < nsPerMs := by decide
  have hms : 0 < ms := Nat.pos_of_mul_pos_left hw
  have weight : nsPerMs * ms ≤ nsPerMs * ((nsPerMs * ms - elapsed) / nsPerMs) + (elapsed + nsPerMs) := by
    have left := Nat.lt_mul_div_succ (nsPerMs * ms - elapsed) hns
    rw [Nat.mul_add, Nat.mul_one] at left
    omega
  unfold carriedBytes
  rw [Nat.mul_div_cancel_left ms hns]
  generalize (nsPerMs * ms - elapsed) / nsPerMs = leftMs at weight ⊢
  have floored : bytes * leftMs < ms * (bytes * leftMs / ms + 1) := Nat.lt_mul_div_succ _ hms
  have ceiled : bytes * (elapsed + nsPerMs) ≤
      nsPerMs * ms * (bytes * (elapsed + nsPerMs) ⌈/⌉ (nsPerMs * ms)) := le_smul_ceilDiv hw
  generalize bytes * leftMs / ms = carried at floored ⊢
  generalize bytes * (elapsed + nsPerMs) ⌈/⌉ (nsPerMs * ms) = lost at ceiled ⊢
  refine Nat.lt_succ_iff.mp (Nat.lt_of_mul_lt_mul_left (a := nsPerMs * ms) ?_)
  calc nsPerMs * ms * bytes
      ≤ (nsPerMs * leftMs + (elapsed + nsPerMs)) * bytes := Nat.mul_le_mul_right _ weight
    _ = nsPerMs * (bytes * leftMs) + bytes * (elapsed + nsPerMs) := by ring
    _ < nsPerMs * (ms * (carried + 1)) + nsPerMs * ms * lost :=
        Nat.add_lt_add_of_lt_of_le (Nat.mul_lt_mul_of_pos_left floored hns) ceiled
    _ = nsPerMs * ms * (carried + lost + 1) := by ring

/-- The state of the counter and the charges made so far: both windows hold exactly what was
charged to them, and the last charge left the weighted estimate within the allowance. -/
structure Charged (policy : LimitPolicy) (s : LimitState) (charges : List Charge) : Prop where
  fit : WindowsFit policy s
  clock : s.c + 2 * policy.windowNs < 2 ^ 64
  unset : s.c = 0 → s = {} ∧ charges = []
  started : ∀ q ∈ charges, q.start ≤ s.c
  previous : s.a = chargedBytes charges fun start => start + policy.windowNs = s.c
  current : s.b = chargedBytes charges fun start => start = s.c
  weighed : s.b = 0 ∨ ∃ q ∈ charges, q.start = s.c ∧
    carriedBytes s.a policy.windowNs (q.elapsed policy) + s.b ≤ policy.allowance

namespace Charged

variable {policy : LimitPolicy} {s : LimitState} {charges : List Charge}

theorem zeroed (h : WindowBounds policy) : Charged policy {} [] where
  fit := ⟨Nat.zero_le _, Nat.zero_le _⟩
  clock := by
    have hwide := h.window_le
    dsimp only
    omega
  unset _ := ⟨rfl, rfl⟩
  started := by simp
  previous := rfl
  current := rfl
  weighed := Or.inl rfl

/-- A window that starts later than both windows so far is empty, and so is the one before it. -/
theorem restarted {now : ℕ} (hw : 0 < policy.windowNs)
    (positive : 0 < now) (late : ∀ q ∈ charges, q.start + policy.windowNs < now)
    (clock : now + 2 * policy.windowNs < 2 ^ 64) :
    Charged policy { a := 0, b := 0, c := now } charges where
  fit := ⟨Nat.zero_le _, Nat.zero_le _⟩
  clock := clock
  unset zero := absurd zero (by dsimp only; omega)
  started q hq := by
    have hlate := late q hq
    dsimp only
    omega
  previous := by
    refine (chargedBytes_none fun q hq => ?_).symm
    have hlate := late q hq
    dsimp only
    omega
  current := by
    refine (chargedBytes_none fun q hq => ?_).symm
    have hlate := late q hq
    dsimp only
    omega
  weighed := Or.inl rfl

/-- The current window becomes the previous one. -/
theorem shifted (h : Charged policy s charges) (hw : 0 < policy.windowNs)
    (clock : s.c + policy.windowNs + 2 * policy.windowNs < 2 ^ 64) :
    Charged policy { a := s.b, b := 0, c := s.c + policy.windowNs } charges where
  fit := ⟨h.fit.b_le, Nat.zero_le _⟩
  clock := clock
  unset zero := absurd zero (by dsimp only; omega)
  started q hq := Nat.le_add_right_of_le (h.started q hq)
  previous := by
    dsimp only
    rw [h.current]
    exact chargedBytes_congr fun q _ => by omega
  current := by
    refine (chargedBytes_none fun q hq => ?_).symm
    have hstart := h.started q hq
    dsimp only
    omega
  weighed := Or.inl rfl

theorem rotated (h : Charged policy s charges) (hw : 0 < policy.windowNs) {k : Packet}
    (hk : k.Timed policy 2) :
    Charged policy (rotated policy.windowNs s k.now) charges ∧
      (VmWatcher.rotated policy.windowNs s k.now).c ≠ 0 := by
  obtain ⟨positive, clock⟩ := hk
  unfold VmWatcher.rotated
  by_cases unset : s.c = 0
  · obtain ⟨rfl, rfl⟩ := h.unset unset
    exact ⟨restarted hw positive (by simp) clock, Nat.pos_iff_ne_zero.mp positive⟩
  rw [if_neg unset]
  by_cases bothOver : s.c + 2 * policy.windowNs ≤ k.now
  · rw [if_pos bothOver]
    refine ⟨restarted hw positive (fun q hq => ?_) clock, Nat.pos_iff_ne_zero.mp positive⟩
    have hstart := h.started q hq
    omega
  rw [if_neg bothOver]
  by_cases hover : s.c + policy.windowNs ≤ k.now
  · rw [if_pos hover]
    exact ⟨h.shifted hw (by omega), by dsimp only; omega⟩
  · rw [if_neg hover]
    exact ⟨h, unset⟩

/-- A packet that is admitted is charged to the current window. -/
theorem charge (h : Charged policy s charges) (hw : 0 < policy.windowNs) (set : s.c ≠ 0)
    {k : Packet}
    (room : carriedBytes s.a policy.windowNs (min (k.now - s.c) policy.windowNs) + s.b + k.len ≤
      policy.allowance) :
    Charged policy { s with b := s.b + k.len } (charges ++ [⟨s.c, k⟩]) where
  fit := ⟨h.fit.a_le, by dsimp only; omega⟩
  clock := h.clock
  unset zero := absurd zero set
  started q hq := by
    rcases List.mem_append.mp hq with hq | hq
    · exact h.started q hq
    · obtain rfl := List.mem_singleton.mp hq
      exact le_refl s.c
  previous := by
    have apart : chargedBytes [⟨s.c, k⟩] (fun start => start + policy.windowNs = s.c) = 0 := by
      apply chargedBytes_none
      intro q hq
      obtain rfl := List.mem_singleton.mp hq
      dsimp only
      omega
    dsimp only
    rw [chargedBytes_append, ← h.previous, apart, Nat.add_zero]
  current := by
    dsimp only
    rw [chargedBytes_append, ← h.current]
    simp [chargedBytes]
  weighed := Or.inr ⟨⟨s.c, k⟩, by simp, rfl, by
    unfold Charge.elapsed
    dsimp only
    omega⟩

/-- One packet keeps the windows exact. -/
theorem step (hb : WindowBounds policy) (s : LimitState) (charges : List Charge) (k : Packet)
    (h : Charged policy s charges) (hk : k.Timed policy 2) :
    Charged policy (policer slidingWindowCounter policy s k).1
      (charges ++ (VmWatcher.charge (policer slidingWindowCounter policy) s k).toList) := by
  have hwindow := hb.window_ge
  obtain ⟨kept, set⟩ := h.rotated (by omega) hk
  have exact : policer slidingWindowCounter policy s k =
      slidingWindowCounterExact policy s k.now k.len :=
    (Traced.Yields.slidingWindowCounter hb h.fit h.clock (Or.inr fun _ => trivial)
      (fun _ _ => trivial) : Traced.Yields (fun _ => True) _ _).val_eq
  unfold VmWatcher.charge
  rw [exact]
  unfold slidingWindowCounterExact
  dsimp only
  split
  next room => exact kept.charge (by omega) set room
  next =>
    rw [if_neg (by simp), Option.toList_none, List.append_nil]
    exact kept

/-- What is in both windows together, by the weight the latest charge left the previous one. -/
theorem total_le (h : Charged policy s charges) (wholeMs : nsPerMs ∣ policy.windowNs)
    (hw : 0 < policy.windowNs) :
    s.a + s.b ≤ policy.allowance +
      s.a * (latestElapsed policy charges s.c + nsPerMs) ⌈/⌉ policy.windowNs := by
  rcases h.weighed with empty | ⟨q, hq, hstart, within⟩
  · rw [empty, Nat.add_zero]
    exact Nat.le_add_right_of_le h.fit.a_le
  · have weighed := le_carriedBytes_add wholeMs hw (q.elapsed_le policy) s.a
    have latest : q.elapsed policy ≤ latestElapsed policy charges q.start := elapsed_le_latest hq
    rw [hstart] at latest
    have lost : s.a * (q.elapsed policy + nsPerMs) ⌈/⌉ policy.windowNs ≤
        s.a * (latestElapsed policy charges s.c + nsPerMs) ⌈/⌉ policy.windowNs :=
      (gc_mul_ceilDiv hw).monotone_l (Nat.mul_le_mul_left _ (Nat.add_le_add_right latest _))
    omega

end Charged

/-- No boundary burst: whatever the order of the clock readings, `a` and `b` are the bytes
admitted in the previous and in the current window, neither exceeds the allowance, and
together they exceed it by no more than the share of the previous window that has passed. -/
theorem sliding_window_has_no_burst (cfg : ValidatedConfig) (accepted : cfg.Accepted)
    (p : DirPolicy) (hp : cfg.ResolvesDir p) (ha : p.algorithm = algoSlidingWindowCounter)
    (ks : List Packet) (timed : ∀ k ∈ ks, k.Timed p.installed 2) :
    let m := policer slidingWindowCounter p.installed
    let s := m.stateAfter {} ks
    let charges := m.noted (charge m) {} ks
    let w := p.installed.windowNs
    let allowed := (windowAllowance p.installed).val
    s.a = chargedBytes charges (fun start => start + w = s.c) ∧
    s.b = chargedBytes charges (fun start => start = s.c) ∧
    s.a ≤ allowed ∧ s.b ≤ allowed ∧
    s.a + s.b ≤ allowed + s.a * (latestElapsed p.installed charges s.c + nsPerMs) ⌈/⌉ w := by
  intro m s charges w allowed
  have bounded := accepted.resolvesDir hp
  have h := bounded.windowBounds (by rw [ha]; decide)
  have hwindow := h.window_ge
  have hallowed : allowed = p.installed.allowance := windowAllowance_val h
  have wholeMs : nsPerMs ∣ p.installed.windowNs := by
    rw [bounded.windowNs_installed]
    exact Dvd.dvd.mul_left (by decide) _
  have reached : Charged p.installed s charges :=
    Mealy.noted_keeps (Charged.step h) (Charged.zeroed h) ks timed
  rw [hallowed]
  exact ⟨reached.previous, reached.current, reached.fit.a_le, reached.fit.b_le,
    reached.total_le wholeMs (by omega)⟩

/-- A full window, and a second later half of the next one, with a stale packet between. -/
theorem sliding_window_has_no_burst_shifted :
    let m := policer slidingWindowCounter counterOnly.installed
    let s := m.stateAfter {} [⟨1000000000, 12500⟩, ⟨2500000000, 6000⟩, ⟨1900000000, 60⟩]
    s.a + s.b ≤ 12500 + 12500 * (500000000 + nsPerMs) ⌈/⌉ 1000000000 := by
  have held := sliding_window_has_no_burst _ accepted_counterLimit counterOnly
    resolvesDir_counterOnly rfl [⟨1000000000, 12500⟩, ⟨2500000000, 6000⟩, ⟨1900000000, 60⟩]
    (by unfold Packet.Timed; decide)
  exact held.2.2.2.2

/-- At the very end of the `u64` clock the end of both windows wraps: a packet exactly one
window later drops the bytes of the window before it. -/
theorem sliding_window_wraps :
    let m := policer slidingWindowCounter counterOnly.installed
    let ks : List Packet := [⟨2 ^ 64 - 1200000000, 100⟩, ⟨2 ^ 64 - 200000000, 100⟩]
    let s := m.stateAfter {} ks
    (Limiter.oneAddress counterLimit).Accepted ∧
    (Limiter.oneAddress counterLimit).ResolvesDir counterOnly ∧
    (∀ k ∈ ks, 0 < k.now ∧ k.now < 2 ^ 64 ∧ k.Policed) ∧
    s.a ≠ chargedBytes (m.noted (charge m) {} ks)
      (fun start => start + counterOnly.installed.windowNs = s.c) :=
  ⟨accepted_counterLimit, resolvesDir_counterOnly, by decide, by decide⟩

end VmWatcher

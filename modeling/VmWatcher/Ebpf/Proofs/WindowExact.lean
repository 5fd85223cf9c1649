import VmWatcher.Ebpf.Policers

/-!
# Fixed window and sliding window counter in exact arithmetic

Under the configuration's bounds both critical sections compute, without a wrap, what
their names say. Everything the later files prove about them is proved about these forms.
-/

namespace VmWatcher

/-- What `check_policy_bounds` leaves of a policy for the window algorithms: a rate of at
most 1 Tbps and a window between one second and one minute. -/
structure WindowBounds (policy : LimitPolicy) : Prop where
  rate_le : policy.rateBps ≤ 1000000000000
  window_ge : 1000000000 ≤ policy.windowNs
  window_le : policy.windowNs ≤ 60000000000

instance (policy : LimitPolicy) : Decidable (WindowBounds policy) :=
  decidable_of_iff (policy.rateBps ≤ 1000000000000 ∧ 1000000000 ≤ policy.windowNs ∧
      policy.windowNs ≤ 60000000000)
    ⟨fun h => ⟨h.1, h.2.1, h.2.2⟩, fun h => ⟨h.1, h.2, h.3⟩⟩

/-- The bytes one window may admit. -/
def LimitPolicy.allowance (policy : LimitPolicy) : ℕ :=
  policy.rateBps / bitsPerByte * (policy.windowNs / nsPerSec)

/-- `fixedWindow` up to the verdict: a new window starts when the old one is over. -/
def fixedRolled (policy : LimitPolicy) (state : LimitState) (now : ℕ) : LimitState :=
  if state.b = 0 ∨ state.b + policy.windowNs ≤ now then { state with a := 0, b := now } else state

def fixedWindowExact (policy : LimitPolicy) (state : LimitState) (now len : ℕ) :
    LimitState × Bool :=
  let state := fixedRolled policy state now
  if state.a + len ≤ policy.allowance then ({ state with a := state.a + len }, true)
  else (state, false)

/-- `rotateWindows` in exact arithmetic. -/
def rotated (w : ℕ) (state : LimitState) (now : ℕ) : LimitState :=
  if state.c = 0 then { state with c := now }
  else if state.c + 2 * w ≤ now then { a := 0, b := 0, c := now }
  else if state.c + w ≤ now then { a := state.b, b := 0, c := state.c + w }
  else state

/-- `swcCarriedBytes` in exact arithmetic. -/
def carriedBytes (prevBytes windowNs elapsedNs : ℕ) : ℕ :=
  prevBytes * ((windowNs - elapsedNs) / nsPerMs) / (windowNs / nsPerMs)

def slidingWindowCounterExact (policy : LimitPolicy) (state : LimitState) (now len : ℕ) :
    LimitState × Bool :=
  let state := rotated policy.windowNs state now
  let carried := carriedBytes state.a policy.windowNs (min (now - state.c) policy.windowNs)
  if carried + state.b + len ≤ policy.allowance then ({ state with b := state.b + len }, true)
  else (state, false)

namespace WindowBounds

variable {policy : LimitPolicy} (h : WindowBounds policy)
include h

theorem allowance_le : policy.allowance ≤ 7500000000000 := by
  have hrate := h.rate_le
  have hwindow := h.window_le
  unfold LimitPolicy.allowance bitsPerByte nsPerSec
  calc policy.rateBps / 8 * (policy.windowNs / 1000000000)
      ≤ 125000000000 * 60 := Nat.mul_le_mul (by omega) (by omega)
    _ ≤ 7500000000000 := by decide

/-- The carried bytes never exceed what the previous window held. -/
theorem carriedBytes_le (prevBytes elapsedNs : ℕ) :
    carriedBytes prevBytes policy.windowNs elapsedNs ≤ prevBytes := by
  have hwindow := h.window_ge
  unfold carriedBytes nsPerMs
  refine Nat.div_le_of_le_mul ?_
  rw [Nat.mul_comm (policy.windowNs / 1000000)]
  exact Nat.mul_le_mul_left _ (Nat.div_le_div_right (Nat.sub_le _ _))

end WindowBounds

/-- Neither window holds more than the allowance. -/
structure WindowsFit (policy : LimitPolicy) (state : LimitState) : Prop where
  a_le : state.a ≤ policy.allowance
  b_le : state.b ≤ policy.allowance

theorem WindowsFit.rotated {policy : LimitPolicy} {state : LimitState}
    (h : WindowsFit policy state) (w now : ℕ) : WindowsFit policy (rotated w state now) := by
  unfold VmWatcher.rotated
  split
  · exact ⟨h.a_le, h.b_le⟩
  · split
    · exact ⟨Nat.zero_le _, Nat.zero_le _⟩
    · split
      · exact ⟨h.b_le, Nat.zero_le _⟩
      · exact h

namespace Traced.Yields

variable {allowed : ArithOp → Prop} {policy : LimitPolicy} {state : LimitState} {now len : ℕ}

theorem windowAllowance (h : WindowBounds policy) :
    Yields allowed (VmWatcher.windowAllowance policy) policy.allowance := by
  have hallowance := h.allowance_le
  unfold VmWatcher.windowAllowance
  refine .bind (div (by decide)) (.bind (div (by decide)) (mul ?_))
  exact Nat.lt_of_le_of_lt hallowance (by decide)

theorem fixedWindow (h : WindowBounds policy) (ha : state.a ≤ policy.allowance)
    (hb : state.b + policy.windowNs < 2 ^ 64)
    (hlen : len ≤ maxPolicedLen ∨ ∀ x, allowed (.saturatingAdd x len)) :
    Yields allowed (VmWatcher.fixedWindow policy state now len)
      (fixedWindowExact policy state now len) := by
  have hallowance := h.allowance_le
  have hwindow := h.window_ge
  unfold maxPolicedLen at hlen
  have rolled_le : (fixedRolled policy state now).a ≤ policy.allowance := by
    unfold fixedRolled
    split
    · exact Nat.zero_le _
    · exact ha
  unfold VmWatcher.fixedWindow
  rw [if_neg (by omega)]
  refine .bind (v := fixedRolled policy state now) ?_ ?_
  · unfold fixedRolled
    refine branch (?_) (?_)
    · intro unset
      exact (Yields.pure _).of_eq (if_pos (Or.inl unset)).symm
    · intro set
      refine .bind (add hb) ((Yields.pure _).of_eq ?_)
      by_cases hover : state.b + policy.windowNs ≤ now
      · rw [if_pos hover, if_pos (Or.inr hover)]
      · rw [if_neg hover, if_neg (by simp [set, hover])]
  · have sum := hlen.imp (fun small => (by omega : (fixedRolled policy state now).a + len < 2 ^ 64))
      fun stops => stops (fixedRolled policy state now).a
    refine .bind (saturatingAdd_stopped sum) (.bind (windowAllowance h) ?_)
    refine branch (?_) (?_)
    · intro fits
      refine .bind (add (by omega)) ((Yields.pure _).of_eq ?_)
      exact (if_pos (by omega)).symm
    · intro full
      exact (Yields.pure _).of_eq (if_neg (by omega)).symm

theorem rotateWindows {w : ℕ} (hc : state.c + 2 * w < 2 ^ 64) :
    Yields allowed (VmWatcher.rotateWindows w state now) (rotated w state now) := by
  unfold VmWatcher.rotateWindows rotated
  by_cases unset : state.c = 0
  · rw [if_pos unset, if_pos unset]
    exact Yields.pure _
  rw [if_neg unset, if_neg unset]
  refine .bind (mul (by omega)) (.bind (add hc) ?_)
  by_cases bothOver : state.c + 2 * w ≤ now
  · rw [if_pos bothOver, if_pos bothOver]
    exact Yields.pure _
  rw [if_neg bothOver, if_neg bothOver]
  refine .bind (add (by omega)) ?_
  by_cases hover : state.c + w ≤ now
  · rw [if_pos hover, if_pos hover]
    exact .bind (add (by omega)) (Yields.pure _)
  · rw [if_neg hover, if_neg hover]
    exact Yields.pure _

theorem swcCarriedBytes {prevBytes elapsedNs : ℕ} (h : WindowBounds policy)
    (hprev : prevBytes ≤ policy.allowance) (helapsed : elapsedNs ≤ policy.windowNs) :
    Yields allowed (VmWatcher.swcCarriedBytes prevBytes policy.windowNs elapsedNs)
      (carriedBytes prevBytes policy.windowNs elapsedNs) := by
  have hallowance := h.allowance_le
  have hge := h.window_ge
  have hle := h.window_le
  have weighted : prevBytes * ((policy.windowNs - elapsedNs) / nsPerMs) ≤ 7500000000000 * 60000 := by
    refine Nat.mul_le_mul (hprev.trans hallowance) ?_
    unfold nsPerMs
    omega
  have wholeMs : policy.windowNs / nsPerMs ≠ 0 := by
    unfold nsPerMs
    omega
  unfold VmWatcher.swcCarriedBytes
  refine .bind (div (by decide)) ?_
  rw [if_neg wholeMs, Nat.min_eq_left helapsed]
  refine .bind (sub (by omega) helapsed) (.bind (div (by decide)) ?_)
  exact .bind (mul (by omega)) (div wholeMs)

theorem slidingWindowCounter (h : WindowBounds policy) (fit : WindowsFit policy state)
    (hc : state.c + 2 * policy.windowNs < 2 ^ 64)
    (hlen : len ≤ maxPolicedLen ∨ ∀ x, allowed (.saturatingAdd x len))
    (hclamp : ∀ op : ArithOp, op.Clamps → allowed op) :
    Yields allowed (VmWatcher.slidingWindowCounter policy state now len)
      (slidingWindowCounterExact policy state now len) := by
  have hallowance := h.allowance_le
  have hwindow := h.window_ge
  unfold maxPolicedLen at hlen
  obtain ⟨ha, hb⟩ := fit.rotated policy.windowNs now
  unfold VmWatcher.slidingWindowCounter slidingWindowCounterExact
  dsimp only
  rw [if_neg (by omega)]
  refine .bind (rotateWindows hc) ?_
  generalize rotated policy.windowNs state now = state' at ha hb ⊢
  have hcarried := h.carriedBytes_le state'.a (min (now - state'.c) policy.windowNs)
  refine .bind (saturatingSub hclamp) (.bind (swcCarriedBytes h ha (Nat.min_le_right _ _)) ?_)
  refine .bind (saturatingAdd (by omega)) ?_
  refine .bind (saturatingAdd_stopped (hlen.imp (fun small => by omega) fun stops => stops _)) ?_
  refine .bind (windowAllowance h) ?_
  refine branch (?_) (?_)
  · intro fits
    rw [if_pos (by omega)]
    exact .bind (add (by omega)) (Yields.pure _)
  · intro full
    exact (Yields.pure _).of_eq (if_neg (by omega)).symm

end Traced.Yields

end VmWatcher

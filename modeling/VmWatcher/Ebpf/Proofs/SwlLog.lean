import VmWatcher.Core.Swl
import VmWatcher.Ebpf.Policers
import VmWatcher.Misc.RingLog
import Mathlib.Algebra.Order.Group.Nat

/-!
# The sliding window log and its two models

The ring of `swl_police` against the log of everything it admitted, and against the
userspace model of the same algorithm.
-/

namespace VmWatcher

/-! ### What the scan adds up -/

/-- Bytes of the entries newer than the bound. -/
def usedSince (bound : ℕ) (entries : List SwlEntry) : ℕ :=
  (entries.map fun e => if e.tsNs > bound then e.len else 0).sum

/-- The lengths `police` lets through. -/
def PolicedLens (entries : List SwlEntry) : Prop := ∀ e ∈ entries, e.len ≤ maxPolicedLen

theorem usedSince_le (bound : ℕ) {entries : List SwlEntry} (h : PolicedLens entries) :
    usedSince bound entries ≤ entries.length * maxPolicedLen := by
  induction entries with
  | nil => exact Nat.zero_le _
  | cons e entries ih =>
    have hrest := ih fun x hx => h x (List.mem_cons_of_mem _ hx)
    have hlen := h e (by simp)
    unfold usedSince at hrest ⊢
    simp only [List.map_cons, List.sum_cons, List.length_cons, Nat.succ_mul]
    split <;> omega

theorem Traced.Yields.swlWindowUsed {allowed : ArithOp → Prop} {now windowNs : ℕ}
    {entries : List SwlEntry} (h : PolicedLens entries) (hcount : entries.length ≤ swlLogCap)
    (hsub : windowNs ≤ now ∨ allowed (.sub now windowNs)) :
    Yields allowed (swlWindowUsed now windowNs entries)
      (usedSince (Traced.sub now windowNs).val entries) := by
  have bound : Yields allowed (Traced.sub now windowNs) (Traced.sub now windowNs).val :=
    ⟨rfl, by simpa [Traced.sub] using hsub⟩
  have scan : ∀ (entries : List SwlEntry) (used : ℕ), PolicedLens entries →
      used + entries.length * maxPolicedLen < 2 ^ 64 →
      Yields allowed (entries.foldlM (fun used entry => do
          let bound ← Traced.sub now windowNs
          if entry.tsNs > bound then Traced.add used entry.len else pure used) used)
        (used + usedSince (Traced.sub now windowNs).val entries) := by
    intro entries
    induction entries with
    | nil => exact fun used _ _ => .pure used
    | cons e entries ih =>
      intro used h hroom
      have hlen := h e (by simp)
      have hrest : PolicedLens entries := fun x hx => h x (List.mem_cons_of_mem _ hx)
      simp only [List.length_cons, Nat.succ_mul] at hroom
      rw [List.foldlM_cons]
      by_cases newer : e.tsNs > (Traced.sub now windowNs).val
      · refine .bind (.bind bound (.branch (fun _ => .add (by omega)) (absurd newer))) ?_
        refine (ih (used + e.len) hrest (by omega)).of_eq ?_
        simp [usedSince, newer, Nat.add_assoc]
      · refine .bind (.bind bound (.branch (fun h => absurd h newer) fun _ => .pure used)) ?_
        refine (ih used hrest (by omega)).of_eq ?_
        simp [usedSince, newer]
  refine (scan entries 0 h ?_).of_eq (Nat.zero_add _)
  have := Nat.mul_le_mul_right maxPolicedLen hcount
  have cap : swlLogCap * maxPolicedLen < 2 ^ 64 := by decide
  omega

/-! ### The ring holds the end of the log -/

/-- What the ring keeps of an admitted packet. -/
def Packet.entry (k : Packet) : SwlEntry := { tsNs := k.now, len := k.len }

theorem SwlRing.slot_lt (ring : SwlRing) : ring.head % swlLogCap < swlLogCap :=
  Nat.mod_lt _ (by decide)

/-- The ring after one more admitted packet. -/
def SwlRing.logged (ring : SwlRing) (k : Packet) : SwlRing where
  head := ring.head % swlLogCap + 1
  entries := ring.entries.set (ring.head % swlLogCap) k.entry ring.slot_lt

/-- The ring holds the last entries of the log of admitted packets. -/
structure RingOf (log : List Packet) (ring : SwlRing) : Prop where
  holds : RingLog.Holds {} ring.entries.toList ring.head (log.map Packet.entry)
  policed : ∀ k ∈ log, k.Policed

theorem ringOf_zeroed : RingOf [] {} where
  holds := by
    have : (Vector.replicate swlLogCap ({} : SwlEntry)).toList = List.replicate swlLogCap {} := by
      simp
    rw [this]
    exact RingLog.holds_blank
  policed := nofun

namespace RingOf

variable {log : List Packet} {ring : SwlRing}

theorem policedLens (h : RingOf log ring) : PolicedLens ring.entries.toList := by
  intro e he
  rcases h.holds.mem he with rfl | he
  · exact Nat.zero_le _
  · obtain ⟨k, hk, rfl⟩ := List.mem_map.mp he
    exact (h.policed k hk).2

theorem logged (h : RingOf log ring) {k : Packet} (hk : k.Policed) :
    RingOf (log ++ [k]) (ring.logged k) where
  holds := by
    have hlen : ring.entries.toList.length = swlLogCap := by simp
    have hmod := RingLog.holds_mod.mpr h.holds
    rw [hlen] at hmod
    rw [List.map_append]
    have hlt : ring.head % swlLogCap < ring.entries.toList.length := by
      rw [hlen]
      exact Nat.mod_lt _ (by decide)
    simpa [SwlRing.logged, Vector.toList_set] using hmod.write (e := k.entry) hlt
  policed x hx := by
    rcases List.mem_append.mp hx with hx | hx
    · exact h.policed x hx
    · rw [List.mem_singleton.mp hx]
      exact hk

/-- What the scan of the ring adds up is what the end of the log does. -/
theorem usedSince_eq (h : RingOf log ring) (bound : ℕ) :
    usedSince bound ring.entries.toList =
      usedSince bound ((log.drop (log.length - swlLogCap)).map Packet.entry) := by
  have hsum := h.holds.sum_map (fun e => if e.tsNs > bound then e.len else 0) (by simp)
  rw [usedSince, hsum, usedSince]
  simp [List.map_drop]

end RingOf

theorem swlPolice_val (policy : LimitPolicy) {ring : SwlRing} {k : Packet}
    (h : PolicedLens ring.entries.toList) (hk : k.Policed) :
    policer swlPolice policy ring k =
      if policy.windowNs = 0 then (ring, true)
      else if usedSince (Traced.sub k.now policy.windowNs).val ring.entries.toList + k.len ≤
          (windowAllowance policy).val then (ring.logged k, true)
      else (ring, false) := by
  have hused : (swlWindowUsed k.now policy.windowNs ring.entries.toList).val =
      usedSince (Traced.sub k.now policy.windowNs).val ring.entries.toList :=
    (Traced.Yields.swlWindowUsed h (by simp) (Or.inr trivial) :
      Traced.Yields (fun _ => True) _ _).val_eq
  have hroom : usedSince (Traced.sub k.now policy.windowNs).val ring.entries.toList + k.len <
      2 ^ 64 := by
    have hle := usedSince_le (Traced.sub k.now policy.windowNs).val h
    have hcap : ring.entries.toList.length = swlLogCap := by simp
    have hlen := hk.2
    have : swlLogCap * maxPolicedLen + maxPolicedLen < 2 ^ 64 := by decide
    rw [hcap] at hle
    omega
  unfold policer swlPolice
  by_cases hw : policy.windowNs = 0
  · simp [hw]
  · have hsat : (Traced.saturatingAdd (usedSince (Traced.sub k.now policy.windowNs).val
        ring.entries.toList) k.len).val =
        usedSince (Traced.sub k.now policy.windowNs).val ring.entries.toList + k.len :=
      Nat.min_eq_left (Nat.le_of_lt_succ hroom)
    have hnext : (Traced.add (ring.head % swlLogCap) 1).val = ring.head % swlLogCap + 1 := by
      have : ring.head % swlLogCap < swlLogCap := Nat.mod_lt _ (by decide)
      have : swlLogCap + 1 < 2 ^ 64 := by decide
      exact Nat.mod_eq_of_lt (by omega)
    have hlen : k.len % 2 ^ 32 = k.len := Nat.mod_eq_of_lt (lt_of_le_of_lt hk.2 (by decide))
    simp only [hw, if_false, Traced.val_bind, hused, hsat]
    split
    · simp only [Traced.val_bind, Traced.val_pure, hnext, hlen]
      rfl
    · rfl

/-- A ring of a policy with a window holds the log of what the run admitted. -/
theorem swlPolice_ringOf {policy : LimitPolicy} (hw : policy.windowNs ≠ 0) (ks : List Packet)
    {log : List Packet} {ring : SwlRing} (h : RingOf log ring) (hks : ∀ k ∈ ks, k.Policed) :
    RingOf (log ++ (policer swlPolice policy).accepted ring ks)
      ((policer swlPolice policy).stateAfter ring ks) := by
  induction ks generalizing log ring with
  | nil => simpa [Mealy.accepted] using h
  | cons k ks ih =>
    have hk := hks k (by simp)
    have hrest : ∀ x ∈ ks, x.Policed := fun x hx => hks x (List.mem_cons_of_mem _ hx)
    rw [Mealy.accepted, Mealy.stateAfter_cons, swlPolice_val policy h.policedLens hk, if_neg hw]
    split
    · have := ih (h.logged hk) hrest
      simpa using this
    · simpa using ih h hrest

/-! ### The ring against the whole log -/

/-- What `swl_police` adds up for a packet: nothing when the window is zero. -/
def swlUsed (policy : LimitPolicy) (ring : SwlRing) (now : ℕ) : ℕ :=
  if policy.windowNs = 0 then 0
  else (swlWindowUsed now policy.windowNs ring.entries.toList).val

/-- The total length of the logged packets with a timestamp after `now - window`. -/
def logUsed (policy : LimitPolicy) (log : List Packet) (now : ℕ) : ℕ :=
  if policy.windowNs = 0 then 0
  else ((log.filter fun x => now < x.now + policy.windowNs).map Packet.len).sum

/-- The verdict over an unbounded log. -/
def logConforms (policy : LimitPolicy) (log : List Packet) (k : Packet) : Bool :=
  policy.windowNs = 0 || logUsed policy log k.now + k.len ≤ (windowAllowance policy).val

theorem usedSince_log (bound : ℕ) (log : List Packet) :
    usedSince bound (log.map Packet.entry) =
      ((log.filter fun x => x.now > bound).map Packet.len).sum := by
  induction log with
  | nil => rfl
  | cons x log ih =>
    unfold usedSince at ih ⊢
    by_cases newer : x.now > bound
    · simp [Packet.entry, newer, ← ih]
    · simp [Packet.entry, newer, ← ih]

theorem logUsed_append (policy : LimitPolicy) (log log' : List Packet) (now : ℕ) :
    logUsed policy (log ++ log') now = logUsed policy log now + logUsed policy log' now := by
  unfold logUsed
  split <;> simp

/-- The ring adds up the last entries of the log. -/
theorem swlUsed_eq {policy : LimitPolicy} {log : List Packet} {ring : SwlRing}
    (h : RingOf log ring) {now : ℕ} (hnow : policy.windowNs ≤ now) (hlt : now < 2 ^ 64) :
    swlUsed policy ring now = logUsed policy (log.drop (log.length - swlLogCap)) now := by
  have hused : (swlWindowUsed now policy.windowNs ring.entries.toList).val =
      usedSince (Traced.sub now policy.windowNs).val ring.entries.toList :=
    (Traced.Yields.swlWindowUsed h.policedLens (by simp) (Or.inr trivial) :
      Traced.Yields (fun _ => True) _ _).val_eq
  have hbound : (Traced.sub now policy.windowNs).val = now - policy.windowNs :=
    (Traced.Yields.sub hlt hnow : Traced.Yields (fun _ => True) _ _).val_eq
  unfold swlUsed logUsed
  split
  · rfl
  · rw [hused, h.usedSince_eq, hbound, usedSince_log]
    congr 3
    funext x
    rw [decide_eq_decide]
    omega

/-- The verdict of the ring is the verdict over the end of the log. -/
theorem swlPolice_verdict {policy : LimitPolicy} {log : List Packet} {ring : SwlRing}
    (h : RingOf log ring) {k : Packet} (hk : k.Policed) (hnow : policy.windowNs ≤ k.now)
    (hlt : k.now < 2 ^ 64) :
    (policer swlPolice policy ring k).2 =
      logConforms policy (log.drop (log.length - swlLogCap)) k := by
  have hbound : (Traced.sub k.now policy.windowNs).val = k.now - policy.windowNs :=
    (Traced.Yields.sub hlt hnow : Traced.Yields (fun _ => True) _ _).val_eq
  have hused := swlUsed_eq h hnow hlt
  rw [swlPolice_val policy h.policedLens hk]
  unfold logConforms
  rw [← hused]
  by_cases hw : policy.windowNs = 0
  · simp [hw]
  · have hscan : (swlWindowUsed k.now policy.windowNs ring.entries.toList).val =
        usedSince (Traced.sub k.now policy.windowNs).val ring.entries.toList :=
      (Traced.Yields.swlWindowUsed h.policedLens (by simp) (Or.inr trivial) :
        Traced.Yields (fun _ => True) _ _).val_eq
    simp only [hw, if_false, swlUsed, hscan]
    split <;> simp_all

/-- The log a policer with a zero window keeps: none, for it passes everything. -/
theorem logConforms_zero {policy : LimitPolicy} (hw : policy.windowNs = 0) (log : List Packet)
    (k : Packet) : logConforms policy log k = true := by
  simp [logConforms, hw]

/-- An end of the log adds up to no more than the log. -/
theorem logUsed_drop_le (policy : LimitPolicy) (log : List Packet) (n now : ℕ) :
    logUsed policy (log.drop n) now ≤ logUsed policy log now := by
  calc logUsed policy (log.drop n) now
      ≤ logUsed policy (log.take n) now + logUsed policy (log.drop n) now := Nat.le_add_left _ _
    _ = logUsed policy log now := by rw [← logUsed_append, List.take_append_drop]

/-- Entries older than the window add nothing. -/
theorem logUsed_eq_zero {policy : LimitPolicy} {log : List Packet} {now : ℕ}
    (h : ∀ x ∈ log, x.now + policy.windowNs ≤ now) : logUsed policy log now = 0 := by
  unfold logUsed
  split
  · rfl
  · have : (log.filter fun x => now < x.now + policy.windowNs) = [] := by
      rw [List.filter_eq_nil_iff]
      intro x hx
      simpa using h x hx
    rw [this]
    rfl

/-- The packet was admitted in the window that ends at `t`. -/
def Packet.InWindow (policy : LimitPolicy) (t : ℕ) (x : Packet) : Prop :=
  t < x.now + policy.windowNs ∧ x.now ≤ t

instance (policy : LimitPolicy) (t : ℕ) : DecidablePred (Packet.InWindow policy t) := fun x => by
  unfold Packet.InWindow
  infer_instance

/-- The lengths of packets in the window of the last of them are in the usage that one
was judged by. -/
theorem inWindow_le_logUsed {policy : LimitPolicy} (log : List Packet) {t : ℕ} {x : Packet}
    (hx : x.InWindow policy t) :
    ((log.filter (Packet.InWindow policy t)).map Packet.len).sum ≤ logUsed policy log x.now := by
  have hw : policy.windowNs ≠ 0 := by
    have := hx.1
    have := hx.2
    omega
  rw [logUsed, if_neg hw]
  refine List.Sublist.sum_le_sum (List.Sublist.map _ ?_) (by simp)
  apply List.monotone_filter_right log
  intro y hy
  have hy : y.InWindow policy t := by simpa using hy
  have := hx.2
  have := hy.1
  simp only [decide_eq_true_eq]
  omega

/-- One packet judged by a ring that holds the end of the log. -/
theorem swlPolice_le_log {policy : LimitPolicy} {log : List Packet} {ring : SwlRing}
    (h : RingOf log ring) {k : Packet} (hk : k.Policed) (hnow : policy.windowNs ≤ k.now)
    (hlt : k.now < 2 ^ 64) :
    swlUsed policy ring k.now ≤ logUsed policy log k.now ∧
      ((policer swlPolice policy ring k).2 = false → logConforms policy log k = false) ∧
      ((∀ x ∈ log.take (log.length - swlLogCap), x.now + policy.windowNs ≤ k.now) →
        swlUsed policy ring k.now = logUsed policy log k.now ∧
          (policer swlPolice policy ring k).2 = logConforms policy log k) := by
  have hle := logUsed_drop_le policy log (log.length - swlLogCap) k.now
  rw [swlUsed_eq h hnow hlt, swlPolice_verdict h hk hnow hlt]
  refine ⟨hle, ?_, ?_⟩
  · intro hdrop
    simp only [logConforms, Bool.or_eq_false_iff, decide_eq_false_iff_not] at hdrop ⊢
    exact ⟨hdrop.1, by omega⟩
  · intro hold
    have hsame : logUsed policy (log.drop (log.length - swlLogCap)) k.now =
        logUsed policy log k.now := by
      have hsplit := logUsed_append policy (log.take (log.length - swlLogCap))
        (log.drop (log.length - swlLogCap)) k.now
      rw [List.take_append_drop, logUsed_eq_zero hold, Nat.zero_add] at hsplit
      exact hsplit.symm
    rw [logConforms, logConforms, hsame]
    exact ⟨rfl, rfl⟩

theorem Packet.InWindow.windowNs_ne_zero {policy : LimitPolicy} {x : Packet} {t : ℕ}
    (h : x.InWindow policy t) : policy.windowNs ≠ 0 := by
  have := h.1
  have := h.2
  omega

/-- The last of some admissions that the ring holds together was judged with all the
others in sight. -/
theorem admitted_inWindow_le {policy : LimitPolicy} {before window : List Packet} {x : Packet}
    {ring : SwlRing} {t : ℕ} (h : RingOf (before ++ window) ring) (hx : x.Policed)
    (hnow : policy.windowNs ≤ x.now) (hlt : x.now < 2 ^ 64)
    (hadmitted : (policer swlPolice policy ring x).2 = true) (hin : x.InWindow policy t)
    (hcap : window.length < swlLogCap) :
    ((window.filter (Packet.InWindow policy t)).map Packet.len).sum + x.len ≤
      (windowAllowance policy).val := by
  have hw := hin.windowNs_ne_zero
  rw [swlPolice_verdict h hx hnow hlt, logConforms] at hadmitted
  simp only [hw, decide_false, Bool.false_or, decide_eq_true_eq] at hadmitted
  have hlast : (before ++ window).drop ((before ++ window).length - swlLogCap) =
      before.drop ((before ++ window).length - swlLogCap) ++ window := by
    refine List.drop_append_of_le_length ?_
    rw [List.length_append]
    omega
  rw [hlast, logUsed_append] at hadmitted
  have := inWindow_le_logUsed window hin
  omega

/-- Without a window the ring is not read, and every packet passes. -/
theorem swlPolice_le_log_zero {policy : LimitPolicy} (hw : policy.windowNs = 0)
    (log : List Packet) (ring : SwlRing) (k : Packet) :
    swlUsed policy ring k.now = logUsed policy log k.now ∧
      (policer swlPolice policy ring k).2 = logConforms policy log k := by
  have hpass : (policer swlPolice policy ring k).2 = true := by
    simp [policer, swlPolice, hw]
  exact ⟨by simp [swlUsed, logUsed, hw], by rw [hpass, logConforms_zero hw]⟩

/-- The ring after some packets is the bounded end of the log of what it admitted. -/
theorem ringOf_run {policy : LimitPolicy} (hw : policy.windowNs ≠ 0) {done : List Packet}
    (hdone : ∀ k ∈ done, k.Policed) :
    RingOf ((policer swlPolice policy).accepted {} done)
      ((policer swlPolice policy).stateAfter {} done) := by
  simpa using swlPolice_ringOf hw done ringOf_zeroed hdone

/-- What lies around a window is not in it. -/
theorem filter_inWindow_between {policy : LimitPolicy} {before window after : List Packet} {t : ℕ}
    (outside : ∀ x ∈ before ++ after, ¬x.InWindow policy t) :
    (before ++ window ++ after).filter (Packet.InWindow policy t) =
      window.filter (Packet.InWindow policy t) := by
  have none : ∀ l : List Packet, (∀ x ∈ l, ¬x.InWindow policy t) →
      l.filter (Packet.InWindow policy t) = [] := by
    intro l hl
    rw [List.filter_eq_nil_iff]
    intro x hx
    simpa using hl x hx
  rw [List.filter_append, List.filter_append,
    none before fun x hx => outside x (List.mem_append_left _ hx),
    none after fun x hx => outside x (List.mem_append_right _ hx)]
  simp

/-- The admissions of a window that the ring holds together stay inside the allowance. -/
theorem swlPolice_window_le {policy : LimitPolicy} {ks : List Packet}
    (hks : ∀ k ∈ ks, k.Policed ∧ policy.windowNs ≤ k.now ∧ k.now < 2 ^ 64) {t : ℕ}
    {before window after : List Packet}
    (hlog : (policer swlPolice policy).accepted {} ks = before ++ window ++ after)
    (hcap : window.length ≤ swlLogCap) :
    ((window.filter (Packet.InWindow policy t)).map Packet.len).sum ≤
      (windowAllowance policy).val := by
  -- the last admission of the window saw all the others
  rcases List.eq_nil_or_concat (window.filter (Packet.InWindow policy t)) with
    hnil | ⟨init, x, hlast⟩
  · simp [hnil]
  · obtain ⟨w₁, w₂, rfl, hinit, hx⟩ :=
      List.filter_eq_append_iff.mp (hlast.trans List.concat_eq_append)
    obtain ⟨w₃, w₄, rfl, hearlier, hin, -⟩ := List.filter_eq_cons_iff.mp hx
    have hin : x.InWindow policy t := by simpa using hin
    have hlog' : (policer swlPolice policy).accepted {} ks =
        (before ++ (w₁ ++ w₃)) ++ x :: (w₄ ++ after) := by
      rw [hlog]
      simp
    obtain ⟨done, rest, rfl, hdone, hadmitted⟩ := Mealy.exists_of_accepted_eq hlog'
    obtain ⟨hk, hnow, hlt⟩ := hks x (by simp)
    have hring := ringOf_run hin.windowNs_ne_zero fun y hy =>
      (hks y (List.mem_append_left _ hy)).1
    rw [hdone] at hring
    have hbound := admitted_inWindow_le hring hk hnow hlt hadmitted hin (by
      simp at hcap ⊢
      omega)
    have hnil : w₃.filter (Packet.InWindow policy t) = [] :=
      List.filter_eq_nil_iff.mpr hearlier
    rw [List.filter_append, hnil, List.append_nil, hinit] at hbound
    rw [hlast]
    simpa using hbound

/-- The ring is the bounded end of the exact log of what it admitted: it never adds up
more than the log, it agrees with the log while everything in the window is among the
last admissions, and so the admitted bytes of any window stay inside the allowance as
long as the ring is large enough for it. -/
theorem swlPolice_is_bounded_log (policy : LimitPolicy) (ks : List Packet)
    (hks : ∀ k ∈ ks, k.Policed ∧ policy.windowNs ≤ k.now ∧ k.now < 2 ^ 64) :
    let m := policer swlPolice policy
    (∀ done k rest, ks = done ++ k :: rest →
      let ring := m.stateAfter {} done
      let log := m.accepted {} done
      swlUsed policy ring k.now ≤ logUsed policy log k.now ∧
        ((m ring k).2 = false → logConforms policy log k = false) ∧
        ((∀ x ∈ log.take (log.length - swlLogCap), x.now + policy.windowNs ≤ k.now) →
          swlUsed policy ring k.now = logUsed policy log k.now ∧
            (m ring k).2 = logConforms policy log k)) ∧
      ∀ t before window after, m.accepted {} ks = before ++ window ++ after →
        (∀ x ∈ before ++ after, ¬x.InWindow policy t) → window.length ≤ swlLogCap →
        (((m.accepted {} ks).filter (Packet.InWindow policy t)).map Packet.len).sum ≤
          (windowAllowance policy).val := by
  intro m
  refine ⟨?_, ?_⟩
  · intro done k rest same
    subst same
    obtain ⟨hk, hnow, hlt⟩ := hks k (by simp)
    by_cases hw : policy.windowNs = 0
    · obtain ⟨hused, hsame⟩ :=
        swlPolice_le_log_zero hw (m.accepted {} done) (m.stateAfter {} done) k
      refine ⟨hused.le, ?_, fun _ => ⟨hused, hsame⟩⟩
      intro hdrop
      rw [← hsame]
      exact hdrop
    · apply swlPolice_le_log _ hk hnow hlt
      apply ringOf_run hw
      intro x hx
      exact (hks x (List.mem_append_left _ hx)).1
  · intro t before window after hlog houtside hcap
    rw [hlog, filter_inWindow_between houtside]
    exact swlPolice_window_le hks hlog hcap

/-- Two packets a second apart and a stale one, in a window of two seconds. -/
theorem swlPolice_is_bounded_log_stale :
    let policy : LimitPolicy := ⟨1, algoSlidingWindowLog, 8000, 0, 2000000000⟩
    let m := policer swlPolice policy
    let ks : List Packet := [⟨2000000000, 900⟩, ⟨3000000000, 900⟩, ⟨2500000000, 300⟩]
    swlUsed policy (m.stateAfter {} (ks.take 2)) 2500000000 ≤
      logUsed policy (m.accepted {} (ks.take 2)) 2500000000 :=
  ((swlPolice_is_bounded_log ⟨1, algoSlidingWindowLog, 8000, 0, 2000000000⟩
    [⟨2000000000, 900⟩, ⟨3000000000, 900⟩, ⟨2500000000, 300⟩] (by
      intro k hk
      simp only [List.mem_cons, List.not_mem_nil, or_false] at hk
      rcases hk with rfl | rfl | rfl <;> exact ⟨by decide, by decide, by decide⟩)).1
    [⟨2000000000, 900⟩, ⟨3000000000, 900⟩] ⟨2500000000, 300⟩ [] rfl).1

/-! ### The userspace model -/

namespace SwlModel

/-- The model as a machine over packets, called with the policy's window allowance. -/
def policer (policy : LimitPolicy) : Mealy SwlModel Packet Bool :=
  fun m k => (m.police k.now k.len policy.windowNs (windowAllowance policy).val).val

/-- The two rings hold the same entries and are written at the same slot next. -/
structure Mirrors (ring : SwlRing) (m : SwlModel) : Prop where
  entries : ring.entries = m.ring
  head : ring.head % swlLogCap = m.head

theorem mirrors_new : Mirrors {} new := ⟨rfl, rfl⟩

/-- The iterator sum of the model is the index loop of the data path. -/
theorem windowUsed_val (m : SwlModel) (now windowNs : ℕ) :
    (m.windowUsed now windowNs).val = (swlWindowUsed now windowNs m.ring.toList).val := by
  have loop : ∀ (entries : List SwlEntry) (used : ℕ),
      ((entries.filter (·.tsNs > (Traced.sub now windowNs).val)).foldlM
          (fun sum entry => Traced.add sum entry.len) used).val =
        (entries.foldlM (fun used (entry : SwlEntry) => do
          let bound ← Traced.sub now windowNs
          if entry.tsNs > bound then Traced.add used entry.len else pure used) used).val := by
    intro entries
    induction entries with
    | nil => exact fun _ => rfl
    | cons e entries ih =>
      intro used
      by_cases newer : e.tsNs > (Traced.sub now windowNs).val
      · simp [newer, ih]
      · simp [newer, ih]
  exact loop m.ring.toList 0

theorem mirrors_step (policy : LimitPolicy) (ring : SwlRing) (m : SwlModel) (k : Packet)
    (h : Mirrors ring m) (hk : k.Policed) :
    (VmWatcher.policer swlPolice policy ring k).2 = (policer policy m k).2 ∧
      Mirrors (VmWatcher.policer swlPolice policy ring k).1 (policer policy m k).1 := by
  obtain ⟨entries, head, hlt⟩ := m
  obtain ⟨hentries, hhead⟩ := h
  simp only at hentries hhead
  subst hentries hhead
  have hused := windowUsed_val ⟨ring.entries, ring.head % swlLogCap, hlt⟩ k.now policy.windowNs
  have hnext : (Traced.add (ring.head % swlLogCap) 1).val = ring.head % swlLogCap + 1 := by
    have : swlLogCap + 1 < 2 ^ 64 := by decide
    exact Nat.mod_eq_of_lt (by omega)
  have hlen : k.len % 2 ^ 32 = k.len := Nat.mod_eq_of_lt (lt_of_le_of_lt hk.2 (by decide))
  unfold VmWatcher.policer policer swlPolice police
  by_cases hw : policy.windowNs = 0
  · simp only [hw, if_true]
    exact ⟨rfl, rfl, rfl⟩
  · simp only [hw, if_false, Traced.val_bind, hused]
    split
    · simp only [Traced.val_bind, Traced.val_pure, hlen, hnext]
      exact ⟨trivial, rfl, rfl⟩
    · exact ⟨rfl, rfl, rfl⟩

/-- The userspace model mirrors the data path: from the zeroed ring the two give the
same verdict on every packet and hold the same entries after every packet. -/
theorem mirrors_swlPolice (policy : LimitPolicy) (ks : List Packet)
    (hks : ∀ k ∈ ks, k.Policed) :
    (policer policy).outputs new ks = (VmWatcher.policer swlPolice policy).outputs {} ks ∧
      ∀ done, done <+: ks →
        let ring := (VmWatcher.policer swlPolice policy).stateAfter {} done
        let model := (policer policy).stateAfter new done
        ring.entries = model.ring ∧ ring.head % swlLogCap = model.head % swlLogCap := by
  have sim := Mealy.outputs_eq_of_simulation (mirrors_step policy)
  refine ⟨(sim ks {} new mirrors_new hks).1.symm, ?_⟩
  intro done hdone
  have hrel := (sim done {} new mirrors_new fun k hk => hks k (hdone.subset hk)).2
  refine ⟨hrel.entries, ?_⟩
  rw [hrel.head, Nat.mod_eq_of_lt (SwlModel.head_lt _)]

/-- A packet from before the first window is over, where the bound wraps. -/
theorem mirrors_swlPolice_boot :
    let policy : LimitPolicy := ⟨1, algoSlidingWindowLog, 8000, 0, 2000000000⟩
    (policer policy).outputs new [⟨5, 900⟩, ⟨3000000000, 1200⟩] =
      (VmWatcher.policer swlPolice policy).outputs {} [⟨5, 900⟩, ⟨3000000000, 1200⟩] :=
  (mirrors_swlPolice ⟨1, algoSlidingWindowLog, 8000, 0, 2000000000⟩
    [⟨5, 900⟩, ⟨3000000000, 1200⟩] (by decide)).1

end SwlModel

end VmWatcher

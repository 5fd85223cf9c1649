import Mathlib.Algebra.Order.Group.Nat
import Mathlib.Data.List.Basic

/-!
# Cadences

A timer fires at its deadline or later and is armed for a later deadline each time. The
firings are listed latest first. When every new deadline lies a period after the old one or
after the firing, late firings are not made up for: after the first, every period holds at
most one. When every new deadline is exactly a period after the old one, no firing is
missing either.
-/

namespace VmWatcher

/-- Each firing lies as many periods before the deadline as there were firings since, and
any two are as many periods apart as there are firings between them. -/
structure Paced (period deadline : ℕ) (times : List ℕ) : Prop where
  room : ∀ i t, times[i]? = some t → t + i * period ≤ deadline
  spaced : ∀ i j t u, i < j → times[i]? = some t → times[j]? = some u →
    u + (j - (i + 1)) * period ≤ t

namespace Paced

variable {period deadline deadline' now fired : ℕ} {times : List ℕ}

theorem nil : Paced period deadline [] := ⟨nofun, nofun⟩

theorem mono (h : Paced period deadline times) (later : deadline ≤ deadline') :
    Paced period deadline' times :=
  ⟨fun i t ht => (h.room i t ht).trans later, h.spaced⟩

/-- The latest firing is within reach of any clock that has passed it. -/
theorem room_of_latest (h : Paced period deadline times) (past : ∀ t ∈ times, t ≤ now) :
    ∀ i t, times[i]? = some t → t + i * period ≤ now + period := by
  intro i t ht
  cases i with
  | zero =>
    have := past t (List.mem_of_getElem? ht)
    omega
  | succ i =>
    have ⟨first, hfirst⟩ : ∃ first, times[0]? = some first := by
      have short := (List.getElem?_eq_some_iff.mp ht).1
      exact ⟨_, List.getElem?_eq_getElem (Nat.zero_lt_of_lt short)⟩
    have apart := h.spaced 0 (i + 1) first t (Nat.succ_pos i) hfirst ht
    have reached := past first (List.mem_of_getElem? hfirst)
    rw [Nat.zero_add, Nat.add_sub_cancel] at apart
    rw [Nat.add_mul, Nat.one_mul]
    omega

/-- The deadline may be pulled in to a period from now. -/
theorem pull (h : Paced period deadline times) (past : ∀ t ∈ times, t ≤ now) :
    Paced period (min deadline (now + period)) times :=
  ⟨fun i t ht => Nat.le_min.mpr ⟨h.room i t ht, h.room_of_latest past i t ht⟩, h.spaced⟩

/-- A firing, and a deadline a period after the old one. -/
theorem fire (h : Paced period deadline times) (late : deadline ≤ fired)
    (next : deadline + period ≤ deadline') (after : fired ≤ deadline') :
    Paced period deadline' (fired :: times) := by
  constructor
  · intro i t ht
    cases i with
    | zero =>
      obtain rfl := Option.some.inj ht
      simpa using after
    | succ i =>
      have := h.room i t ht
      rw [Nat.add_mul, Nat.one_mul]
      omega
  · intro i j t u hij ht hu
    cases j with
    | zero => exact absurd hij (Nat.not_lt_zero i)
    | succ j =>
      have hu : times[j]? = some u := hu
      cases i with
      | zero =>
        obtain rfl := Option.some.inj ht
        have := h.room j u hu
        rw [Nat.zero_add, Nat.add_sub_cancel]
        omega
      | succ i =>
        have apart := h.spaced i j t u (Nat.lt_of_succ_lt_succ hij) ht hu
        have same : j + 1 - (i + 1 + 1) = j - (i + 1) := by omega
        rw [same]
        exact apart

/-- So are any two firings of a stretch. -/
theorem stretch (h : Paced period deadline times) {part : List ℕ} (inside : part <:+: times)
    {i j t u : ℕ} (hij : i < j) (ht : part[i]? = some t) (hu : part[j]? = some u) :
    u + (j - (i + 1)) * period ≤ t := by
  obtain ⟨before, after, rfl⟩ := inside
  have place : ∀ k v, part[k]? = some v →
      (before ++ part ++ after)[before.length + k]? = some v := by
    intro k v hv
    have short := (List.getElem?_eq_some_iff.mp hv).1
    rw [List.append_assoc, List.getElem?_append_right (Nat.le_add_right _ _),
      Nat.add_sub_cancel_left, List.getElem?_append_left short, hv]
  have apart := h.spaced _ _ t u (Nat.add_lt_add_left hij _) (place i t ht) (place j u hu)
  have same : before.length + j - (before.length + i + 1) = j - (i + 1) := by omega
  rwa [same] at apart

end Paced

/-- No firing is missing: the deadline lies no further from each firing, and from the
`start`, than the firings since then allow for. -/
def Kept (period deadline : ℕ) (start : ℕ) (times : List ℕ) : Prop :=
  ∀ i t, (times ++ [start])[i]? = some t → deadline ≤ t + (i + 1) * period

namespace Kept

variable {period deadline deadline' start fired : ℕ} {times : List ℕ}

theorem begin : Kept period (start + period) start [] := by
  intro i t ht
  cases i with
  | zero =>
    obtain rfl := Option.some.inj ht
    simp
  | succ i => cases ht

theorem mono (h : Kept period deadline start times) (sooner : deadline' ≤ deadline) :
    Kept period deadline' start times := fun i t ht => sooner.trans (h i t ht)

/-- A firing after which the deadline is still at most a period away. -/
theorem fire (h : Kept period deadline start times) (next : deadline' ≤ deadline + period)
    (close : deadline' ≤ fired + period) : Kept period deadline' start (fired :: times) := by
  intro i t ht
  cases i with
  | zero =>
    obtain rfl := Option.some.inj ht
    simpa using close
  | succ i =>
    have before := h i t ht
    have more : (i + 1 + 1) * period = (i + 1) * period + period := by
      rw [Nat.add_mul (i + 1), Nat.one_mul]
    omega

/-- A firing less than a period late. -/
theorem lt_of_prompt (h : Kept period deadline start times) (prompt : fired < deadline + period)
    {i t : ℕ} (ht : (times ++ [start])[i]? = some t) : fired < t + (i + 2) * period := by
  have before := h i t ht
  have more : (i + 2) * period = (i + 1) * period + period := by
    rw [← Nat.succ_mul]
  omega

end Kept

end VmWatcher

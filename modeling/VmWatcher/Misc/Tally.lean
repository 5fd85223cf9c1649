import VmWatcher.Misc.Table
import Mathlib.Algebra.BigOperators.Group.List.Basic
import Mathlib.Algebra.GroupWithZero.Nat
import Mathlib.Algebra.Order.BigOperators.Group.List
import Mathlib.Algebra.Order.Group.Nat

/-!
# Sampled counters

Cumulative counters in a table whose entries come and go, and a meter that reads them
from time to time and reports what each value gained on the sample before. The ledger
records what was really counted, whatever the meter sees of it.
-/

namespace VmWatcher

/-- A value made of counters, one for each `C`. -/
class Tally (V : Type) (C : outParam Type) where
  zero : V
  get : V → C → ℕ
  get_zero : ∀ c, get zero c = 0

namespace Tally

variable {V C : Type} [Tally V C]

/-- The counters of an entry; an absent one counts nothing. -/
def of (entry : Option V) (c : C) : ℕ := get (entry.getD zero) c

@[simp] theorem of_none {c : C} : of (none : Option V) c = 0 := get_zero c

@[simp] theorem of_some {v : V} {c : C} : of (some v) c = get v c := rfl

/-- What a value gained on a sample. Without a sample it is not compared, and a counter
that went backwards gained nothing. -/
def gain (sample : Option V) (v : V) (c : C) : ℕ :=
  match sample with
  | none => 0
  | some p => get v c - get p c

theorem gain_le {sample : Option V} {v : V} {c : C} (p : Option V)
    (h : ∀ q, sample = some q → q = p.getD zero) : gain sample v c ≤ get v c - of p c := by
  cases sample with
  | none => exact Nat.zero_le _
  | some q =>
    obtain rfl := h q rfl
    exact Nat.le_refl _

end Tally

/-- The entries of a counter table and what was counted into them. -/
structure Ledger (K V C : Type) where
  entries : Table K V := Table.empty
  /-- What was counted under each key, over all entries it ever had. -/
  counted : K → C → ℕ := fun _ _ => 0
  /-- What was counted since the last poll, into the entry that is there. -/
  since : K → C → ℕ := fun _ _ => 0
  /-- The entry was deleted since the last poll. -/
  deleted : K → Bool := fun _ => false

namespace Ledger

variable {K V C : Type} [DecidableEq K] [Tally V C]

/-- An entry grows to a value; an absent one is created at zero first. -/
def grow (k : K) (v : V) (l : Ledger K V C) : Ledger K V C :=
  let gained (k' : K) (c : C) : ℕ := if k' = k then Tally.get v c - Tally.of (l.entries k) c else 0
  { l with
    entries := l.entries.insert k v
    counted := fun k' c => l.counted k' c + gained k' c
    since := fun k' c => l.since k' c + gained k' c }

def delete (k : K) (l : Ledger K V C) : Ledger K V C :=
  { l with
    entries := l.entries.remove k
    since := fun k' c => if k' = k then 0 else l.since k' c
    deleted := fun k' => k' = k || l.deleted k' }

/-- A poll was made. -/
def polled (l : Ledger K V C) : Ledger K V C :=
  { l with since := fun _ _ => 0, deleted := fun _ => false }

/-- What was counted since the last poll under any of the keys. -/
def sinceAll (l : Ledger K V C) (keys : List K) (c : C) : ℕ := (keys.map fun k => l.since k c).sum

/-- What the meter reported, with what it would report next, was counted. -/
def Backs (l : Ledger K V C) (samples : Table K V) (reported : K → C → ℕ) : Prop :=
  ∀ k c, reported k c + (Tally.of (l.entries k) c - Tally.of (samples k) c) ≤ l.counted k c

/-- The sample an entry goes on from: that of an earlier entry does not count. -/
def base (l : Ledger K V C) (samples : Table K V) (k : K) : Option V :=
  if l.deleted k then none else samples k

/-- Every entry is its sample and what was counted since. -/
def Follows (l : Ledger K V C) (samples : Table K V) : Prop :=
  ∀ k c, Tally.of (l.entries k) c = l.since k c + Tally.of (l.base samples k) c

/-- No entry is more than its sample and what was counted since. -/
def Within (l : Ledger K V C) (samples : Table K V) : Prop :=
  ∀ k c, Tally.of (l.entries k) c ≤ l.since k c + Tally.of (l.base samples k) c

variable {l : Ledger K V C} {samples samples' : Table K V} {reported reported' : K → C → ℕ}
variable {k : K} {v : V}

omit [DecidableEq K] in
theorem backs_new : ({} : Ledger K V C).Backs Table.empty fun _ _ => 0 := by
  intro k c
  simp

omit [DecidableEq K] in
theorem follows_new : ({} : Ledger K V C).Follows Table.empty := by
  intro k c
  simp [base]

theorem Backs.grow (h : l.Backs samples reported)
    (grows : ∀ c, Tally.of (l.entries k) c ≤ Tally.get v c) :
    (l.grow k v).Backs samples reported := by
  intro k' c
  have before := h k' c
  by_cases hk : k' = k
  · subst hk
    have := grows c
    simp only [Ledger.grow, Table.insert_self, Tally.of_some, if_true]
    omega
  · simpa [Ledger.grow, hk] using before

theorem Backs.delete (h : l.Backs samples reported) (k : K) : (l.delete k).Backs samples reported := by
  intro k' c
  have before := h k' c
  by_cases hk : k' = k
  · subst hk
    simp only [Ledger.delete, Table.remove_self, Tally.of_none, Nat.zero_sub]
    omega
  · simpa [Ledger.delete, hk] using before

omit [DecidableEq K] in
/-- A poll that reports no more than the entries gained on their samples, and takes new
samples that leave no more to report. -/
theorem Backs.polled (h : l.Backs samples reported)
    (poll : ∀ k c, reported' k c + (Tally.of (l.entries k) c - Tally.of (samples' k) c) ≤
      reported k c + (Tally.of (l.entries k) c - Tally.of (samples k) c)) :
    l.polled.Backs samples' reported' := fun k c => Nat.le_trans (poll k c) (h k c)

omit [DecidableEq K] in
theorem Backs.le (h : l.Backs samples reported) (k : K) (c : C) : reported k c ≤ l.counted k c :=
  Nat.le_trans (Nat.le_add_right _ _) (h k c)

@[simp] theorem base_grow : (l.grow k v).base samples = l.base samples := rfl

omit [Tally V C] in
theorem base_delete (k' : K) :
    (l.delete k).base samples k' = if k' = k then none else l.base samples k' := by
  by_cases hk : k' = k <;> simp [Ledger.delete, base, hk]

theorem Follows.grow (h : l.Follows samples)
    (grows : ∀ c, Tally.of (l.entries k) c ≤ Tally.get v c) : (l.grow k v).Follows samples := by
  intro k' c
  have before := h k' c
  by_cases hk : k' = k
  · subst hk
    have := grows c
    rw [base_grow]
    simp only [Ledger.grow, Table.insert_self, Tally.of_some, if_true]
    omega
  · rw [base_grow]
    simpa [Ledger.grow, hk] using before

theorem Follows.delete (h : l.Follows samples) (k : K) : (l.delete k).Follows samples := by
  intro k' c
  have before := h k' c
  by_cases hk : k' = k
  · subst hk
    rw [base_delete, if_pos rfl]
    simp [Ledger.delete]
  · rw [base_delete, if_neg hk]
    simpa [Ledger.delete, hk] using before

omit [DecidableEq K] in
/-- A complete poll samples every entry. -/
theorem follows_polled (complete : ∀ k, samples k = l.entries k) : l.polled.Follows samples := by
  intro k c
  simp [Ledger.polled, base, complete k]

omit [DecidableEq K] in
theorem Follows.within (h : l.Follows samples) : l.Within samples := fun k c => (h k c).le

/-- A counter may go backwards without breaking the bound. -/
theorem Within.grow (h : l.Within samples) (k : K) (v : V) : (l.grow k v).Within samples := by
  intro k' c
  have before := h k' c
  by_cases hk : k' = k
  · subst hk
    rw [base_grow]
    simp only [Ledger.grow, Table.insert_self, Tally.of_some, if_true]
    omega
  · rw [base_grow]
    simpa [Ledger.grow, hk] using before

theorem Within.delete (h : l.Within samples) (k : K) : (l.delete k).Within samples := by
  intro k' c
  have before := h k' c
  by_cases hk : k' = k
  · subst hk
    simp [Ledger.delete]
  · rw [base_delete, if_neg hk]
    simpa [Ledger.delete, hk] using before

omit [DecidableEq K] in
theorem Within.le_since (h : l.Within samples) (k : K) (c : C) :
    Tally.of (l.entries k) c - Tally.of (samples k) c ≤ l.since k c := by
  have := h k c
  unfold base at this
  by_cases deleted : l.deleted k
  · simp only [deleted, if_true, Tally.of_none] at this
    omega
  · simp only [deleted, Bool.false_eq_true, if_false] at this
    omega

omit [DecidableEq K] in
/-- An entry's gain on its sample is what was counted since, unless the sample is one of a
deleted entry: then neither may have counted anything. -/
theorem Follows.eq_since_iff (h : l.Follows samples) (k : K) (c : C) :
    Tally.of (l.entries k) c - Tally.of (samples k) c = l.since k c ↔
      (l.deleted k → Tally.of (samples k) c = 0 ∨ Tally.of (l.entries k) c = 0) := by
  have := h k c
  unfold base at this
  by_cases deleted : l.deleted k
  · simp only [deleted, if_true, Tally.of_none, true_implies] at this ⊢
    omega
  · simp only [deleted, Bool.false_eq_true, if_false, false_implies, iff_true] at this ⊢
    omega

section SinceAll

variable {keys : List K} {c : C}

theorem sinceAll_grow_of_not_mem (other : k ∉ keys) :
    (l.grow k v).sinceAll keys c = l.sinceAll keys c := by
  refine congrArg List.sum (List.map_congr_left ?_)
  intro k' hk'
  have hne : k' ≠ k := fun same => other (same ▸ hk')
  simp [Ledger.grow, hne]

theorem sinceAll_grow_le (distinct : keys.Nodup) : (l.grow k v).sinceAll keys c ≤
    l.sinceAll keys c + (Tally.get v c - Tally.of (l.entries k) c) := by
  induction keys with
  | nil => exact Nat.zero_le _
  | cons k' keys ih =>
    obtain ⟨fresh, rest⟩ := List.nodup_cons.mp distinct
    by_cases hk : k' = k
    · subst hk
      have tail : ((l.grow k' v).sinceAll keys c) = l.sinceAll keys c :=
        sinceAll_grow_of_not_mem fresh
      have head : (l.grow k' v).since k' c =
          l.since k' c + (Tally.get v c - Tally.of (l.entries k') c) := by
        simp [Ledger.grow]
      simp only [sinceAll, List.map_cons, List.sum_cons] at tail ⊢
      omega
    · have tail := ih rest
      have head : (l.grow k v).since k' c = l.since k' c := by simp [Ledger.grow, hk]
      simp only [sinceAll, List.map_cons, List.sum_cons] at tail ⊢
      omega

omit [Tally V C] in
theorem sinceAll_delete_le (k : K) (keys : List K) (c : C) :
    (l.delete k).sinceAll keys c ≤ l.sinceAll keys c := by
  apply List.sum_le_sum
  intro k' _
  by_cases hk : k' = k <;> simp [Ledger.delete, hk]

omit [DecidableEq K] [Tally V C] in
theorem sinceAll_polled (keys : List K) (c : C) : l.polled.sinceAll keys c = 0 := by
  simp [sinceAll, polled]

end SinceAll

end Ledger

/-- A poll read these entries of the table: all of them, unless a read failed. -/
structure Reads {K V : Type} (cur : List (K × V)) (entries : Table K V) (incomplete : Bool) :
    Prop where
  nodup : (cur.map Prod.fst).Nodup
  entry : ∀ e ∈ cur, entries e.1 = some e.2
  all : incomplete = false → ∀ k v, entries k = some v → (k, v) ∈ cur

namespace Reads

variable {K V : Type} [DecidableEq K] {cur : List (K × V)} {entries : Table K V} {incomplete : Bool}

/-- What was read of a key is its entry, or nothing. -/
theorem lookup_eq (h : Reads cur entries incomplete) (k : K) :
    cur.lookup k = entries k ∨ (cur.lookup k = none ∧ incomplete = true) := by
  cases found : cur.lookup k with
  | some v =>
    obtain ⟨before, after, rfl, -⟩ := List.lookup_eq_some_iff.mp found
    exact Or.inl (h.entry (k, v) (by simp)).symm
  | none =>
    cases incomplete with
    | true => exact Or.inr ⟨rfl, rfl⟩
    | false =>
      cases present : entries k with
      | none => exact Or.inl rfl
      | some v =>
        have := List.lookup_eq_none_iff.mp found (k, v) (h.all rfl k v present)
        simp at this

theorem lookup_of_mem (h : Reads cur entries incomplete) {e : K × V} (he : e ∈ cur) :
    cur.lookup e.1 = some e.2 := by
  rcases h.lookup_eq e.1 with hentry | ⟨missed, -⟩
  · rw [hentry, h.entry e he]
  · have := List.lookup_eq_none_iff.mp missed e he
    simp at this

end Reads

end VmWatcher

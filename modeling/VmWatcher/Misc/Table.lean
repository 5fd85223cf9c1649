import Mathlib.Data.Fintype.Card
import Mathlib.Data.List.Basic

/-!
# Tables

A table maps each key to its entry, if it has one. A loop over a table visits the keys in
some order, each once.
-/

namespace VmWatcher

/-- The entry of each key, if it has one. -/
abbrev Table (K V : Type) := K → Option V

namespace Table

variable {K V : Type}

def empty : Table K V := fun _ => none

@[simp] theorem empty_apply {k : K} : (empty : Table K V) k = none := rfl

/-- Keep the entries that pass the test. -/
def retain (t : Table K V) (keep : K → V → Bool) : Table K V := fun k => (t k).filter (keep k)

variable [DecidableEq K]

/-- Insert an entry, or overwrite the one that is there. -/
def insert (t : Table K V) (k : K) (v : V) : Table K V := fun k' => if k' = k then some v else t k'

/-- Remove an entry; an absent one stays absent. -/
def remove (t : Table K V) (k : K) : Table K V := fun k' => if k' = k then none else t k'

variable {t : Table K V} {k k' : K} {v : V}

@[simp] theorem insert_self : t.insert k v k = some v := if_pos rfl

@[simp] theorem insert_of_ne (h : k' ≠ k) : t.insert k v k' = t k' := if_neg h

@[simp] theorem remove_self : t.remove k k = none := if_pos rfl

@[simp] theorem remove_of_ne (h : k' ≠ k) : t.remove k k' = t k' := if_neg h

end Table

/-- The list visits exactly the keys with the property, each once. -/
structure Visits {K : Type} (keys : List K) (p : K → Prop) : Prop where
  nodup : keys.Nodup
  mem_iff : ∀ k, k ∈ keys ↔ p k

/-- Two orders of the same keys. -/
theorem Visits.perm {K : Type} {keys keys' : List K} {p : K → Prop} (h : Visits keys p)
    (h' : Visits keys' p) : keys.Perm keys' :=
  (List.perm_ext_iff_of_nodup h.nodup h'.nodup).mpr fun k =>
    (h.mem_iff k).trans (h'.mem_iff k).symm

/-- There is an order to visit the keys of a finite type in. -/
theorem Visits.exists_of_finite {K : Type} [Finite K] (p : K → Prop) :
    ∃ keys, Visits keys p := by
  classical
  obtain ⟨all, nodup, mem⟩ := Finite.exists_univ_list K
  exact ⟨all.filter p, nodup.filter _, fun k => by simp [mem]⟩

/-- A loop over keys that adds entries of the visited key only adds for each key what
its own visit adds, in whatever order the keys are visited. -/
theorem filter_flatMap_of_nodup {K A : Type} [DecidableEq K] {keys : List K} (h : keys.Nodup)
    {f : K → List A} {keyOf : A → K} (own : ∀ k, ∀ a ∈ f k, keyOf a = k) (k : K) :
    (keys.flatMap f).filter (keyOf · = k) = if k ∈ keys then f k else [] := by
  have self : ∀ k, (f k).filter (keyOf · = k) = f k := fun k =>
    List.filter_eq_self.mpr fun a ha => by simp [own k a ha]
  have other : ∀ k', k' ≠ k → (f k').filter (keyOf · = k) = [] := fun k' hne =>
    List.filter_eq_nil_iff.mpr fun a ha => by simp [own k' a ha, hne]
  induction keys with
  | nil => rfl
  | cons k' keys ih =>
    obtain ⟨hfresh, hrest⟩ := List.nodup_cons.mp h
    rw [List.flatMap_cons, List.filter_append, ih hrest]
    by_cases hk : k' = k
    · subst hk
      simp [self, hfresh]
    · simp [other k' hk, Ne.symm hk]

/-- Where the key determines the entry, a search by key finds the entry with that key. -/
theorem find?_key_eq_some_iff {α K : Type} [DecidableEq K] {key : α → K} {xs : List α}
    (inj : ∀ x ∈ xs, ∀ y ∈ xs, key x = key y → x = y) {k : K} {x : α} :
    xs.find? (fun y => key y = k) = some x ↔ x ∈ xs ∧ key x = k := by
  constructor
  · intro h
    exact ⟨List.mem_of_find?_eq_some h, by simpa using List.find?_some h⟩
  · intro given
    obtain ⟨hmem, rfl⟩ := given
    obtain ⟨y, hy⟩ : ∃ y, xs.find? (fun y => key y = key x) = some y := by
      rw [← Option.isSome_iff_exists, List.find?_isSome]
      exact ⟨x, hmem, by simp⟩
    have same : key y = key x := by simpa using List.find?_some hy
    rw [hy, inj y (List.mem_of_find?_eq_some hy) x hmem same]

end VmWatcher

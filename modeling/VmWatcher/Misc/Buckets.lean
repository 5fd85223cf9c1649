import Mathlib.Algebra.BigOperators.Group.List.Basic
import Mathlib.Algebra.GroupWithZero.Nat
import Mathlib.Data.List.Basic

/-!
# Distributing a list over buckets

Each element of a list goes to at most one of the buckets, and a bucket takes its elements
one by one: it ends up with what its own elements add. Where every element is inside
exactly one bucket, what the buckets count makes up the whole.
-/

namespace VmWatcher.Buckets

variable {α β : Type} {place : α → Option ℕ} {add : β → α → β} {bs : List β} {xs : List α}

/-- The bucket of an element takes it. -/
def put (place : α → Option ℕ) (add : β → α → β) (bs : List β) (x : α) : List β :=
  match place x with
  | none => bs
  | some i => bs.modify i fun b => add b x

/-- The elements of a bucket. -/
def own (place : α → Option ℕ) (xs : List α) (i : ℕ) : List α := xs.filter (place · = some i)

theorem mem_own {x : α} {i : ℕ} : x ∈ own place xs i ↔ x ∈ xs ∧ place x = some i := by
  simp [own]

/-- A bucket holds what its own elements add to it. -/
theorem getElem?_foldl_put (i : ℕ) :
    (xs.foldl (put place add) bs)[i]? = bs[i]?.map fun b => (own place xs i).foldl add b := by
  induction xs generalizing bs with
  | nil => simp [own]
  | cons x xs ih =>
    have step : (put place add bs x)[i]? =
        bs[i]?.map fun b => if place x = some i then add b x else b := by
      unfold put
      cases hplace : place x with
      | none => simp
      | some j =>
        rw [List.getElem?_modify]
        by_cases same : j = i
        · simp [same]
        · simp [same]
    rw [List.foldl_cons, ih, step, Option.map_map]
    by_cases mine : place x = some i
    · simp [own, mine, Function.comp_def]
    · simp [own, mine, Function.comp_def]

/-- Two lists are related when they are at each index. -/
theorem forall₂_iff_getElem? {γ : Type} {R : α → γ → Prop} {as : List α} {cs : List γ} :
    List.Forall₂ R as cs ↔ ∀ i : ℕ, Option.Rel R (as[i]?) (cs[i]?) := by
  induction as generalizing cs with
  | nil =>
    constructor
    · intro h
      cases h
      exact fun _ => .none
    · intro h
      cases cs with
      | nil => exact .nil
      | cons c cs => exact nomatch h 0
  | cons a as ih =>
    constructor
    · intro h i
      cases h with
      | cons head tail =>
        cases i with
        | zero => exact .some head
        | succ i => exact ih.mp tail i
    · intro h
      cases cs with
      | nil => exact nomatch h 0
      | cons c cs =>
        have head : Option.Rel R (some a) (some c) := h 0
        cases head with
        | some head => exact .cons head (ih.mpr fun i => h (i + 1))

theorem sum_indicator (p : β → Bool) (bs : List β) :
    (bs.map fun b => if p b then 1 else 0).sum = bs.countP p := by
  induction bs with
  | nil => rfl
  | cons b bs ih => rw [List.map_cons, List.sum_cons, ih, List.countP_cons, Nat.add_comm]

/-- A table of numbers adds up by rows as by columns. -/
theorem sum_map_comm (f : α → β → ℕ) (as : List α) (bs : List β) :
    (as.map fun a => (bs.map (f a)).sum).sum = (bs.map fun b => (as.map (f · b)).sum).sum := by
  induction bs with
  | nil => simp
  | cons b bs ih =>
    simp only [List.map_cons, List.sum_cons, ← ih]
    exact List.sum_map_add

/-- Counting the pairs bucket by bucket or element by element. -/
theorem sum_countP_comm (inside : β → α → Bool) (bs : List β) (xs : List α) :
    (bs.map fun b => xs.countP (inside b)).sum = (xs.map fun x => bs.countP (inside · x)).sum := by
  simp only [← sum_indicator]
  exact sum_map_comm (fun b x => if inside b x then 1 else 0) bs xs

/-- Where every element is inside exactly one bucket, the buckets count all of them. -/
theorem sum_countP_eq_length {inside : β → α → Bool}
    (once : ∀ x ∈ xs, bs.countP (inside · x) = 1) :
    (bs.map fun b => xs.countP (inside b)).sum = xs.length := by
  rw [sum_countP_comm, List.map_congr_left once]
  simp

/-- At most one bucket, where no two of them share an element. -/
theorem countP_le_one {R : β → β → Prop} {p : β → Bool} (apart : bs.Pairwise R)
    (exclusive : ∀ a b, R a b → ¬ (p a = true ∧ p b = true)) : bs.countP p ≤ 1 := by
  induction apart with
  | nil => exact Nat.zero_le 1
  | @cons b bs differ _ ih =>
    rw [List.countP_cons]
    by_cases mine : p b = true
    · have others : bs.countP p = 0 :=
        List.countP_eq_zero.mpr fun b' hb' own => exclusive b b' (differ b' hb') ⟨mine, own⟩
      simp [others, mine]
    · simpa [mine] using ih

end VmWatcher.Buckets

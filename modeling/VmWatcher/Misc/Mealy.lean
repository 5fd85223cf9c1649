import Mathlib.Algebra.Order.BigOperators.Group.List
import Mathlib.Algebra.Ring.Nat
import Mathlib.Algebra.Ring.Hom.Defs
import Mathlib.Data.List.Basic
import Mathlib.Data.List.Induction
import Mathlib.Data.Nat.ModEq
import Mathlib.Tactic.GCongr

/-!
# Machines that answer every input

A `Mealy` machine takes one input at a time, moves on and answers. This file
fixes its runs over lists of inputs and the rules every run obeys: what one
step keeps a run keeps (`stateAfter_keeps`, `noted_keeps`), two machines in step give the same
answers (`outputs_eq_of_simulation`), and a potential that pays for every step
pays for the run (`spent_le_of_potential`).
-/

namespace VmWatcher

/-- One step: the state moves on and the input is answered. -/
abbrev Mealy (σ ι ο : Type) := σ → ι → σ × ο

namespace Mealy

variable {σ τ ι ο : Type}

/-- The state after a list of inputs. -/
def stateAfter (m : Mealy σ ι ο) : σ → List ι → σ
  | s, [] => s
  | s, x :: xs => stateAfter m (m s x).1 xs

/-- The answers given to a list of inputs, in order. -/
def outputs (m : Mealy σ ι ο) : σ → List ι → List ο
  | _, [] => []
  | s, x :: xs => (m s x).2 :: outputs m (m s x).1 xs

@[simp] theorem stateAfter_nil (m : Mealy σ ι ο) (s : σ) : m.stateAfter s [] = s := rfl

@[simp] theorem stateAfter_cons (m : Mealy σ ι ο) (s : σ) (x : ι) (xs : List ι) :
    m.stateAfter s (x :: xs) = m.stateAfter (m s x).1 xs := rfl

@[simp] theorem outputs_nil (m : Mealy σ ι ο) (s : σ) : m.outputs s [] = [] := rfl

@[simp] theorem outputs_cons (m : Mealy σ ι ο) (s : σ) (x : ι) (xs : List ι) :
    m.outputs s (x :: xs) = (m s x).2 :: m.outputs (m s x).1 xs := rfl

theorem stateAfter_append (m : Mealy σ ι ο) (xs ys : List ι) (s : σ) :
    m.stateAfter s (xs ++ ys) = m.stateAfter (m.stateAfter s xs) ys := by
  induction xs generalizing s with
  | nil => rfl
  | cons x xs ih => exact ih (m s x).1

theorem stateAfter_concat (m : Mealy σ ι ο) (xs : List ι) (x : ι) (s : σ) :
    m.stateAfter s (xs ++ [x]) = (m (m.stateAfter s xs) x).1 := by
  rw [stateAfter_append, stateAfter_cons, stateAfter_nil]

/-- A machine whose answers are read in another way. -/
theorem outputs_map {α : Type} (m : Mealy σ ι ο) (f : ο → α) (xs : List ι) (s : σ) :
    outputs (fun s x => ((m s x).1, f (m s x).2)) s xs = (m.outputs s xs).map f := by
  induction xs generalizing s with
  | nil => rfl
  | cons x xs ih => simp only [outputs_cons, List.map_cons, ih]

/-- A property that every admissible step keeps holds after every admissible run. -/
theorem stateAfter_keeps {m : Mealy σ ι ο} {inv : σ → Prop} {ok : ι → Prop}
    (step : ∀ s x, inv s → ok x → inv (m s x).1) :
    ∀ (xs : List ι) (s : σ), inv s → (∀ x ∈ xs, ok x) → inv (m.stateAfter s xs) := by
  intro xs
  induction xs with
  | nil =>
    intro s hs _
    exact hs
  | cons x xs ih =>
    intro s hs hok
    obtain ⟨hx, hok⟩ := List.forall_mem_cons.mp hok
    exact ih (m s x).1 (step s x hs hx) hok

/-- Two machines whose states stay related give the same answers, and their states
are related after the run. The relation may speak of the inputs still to come. -/
theorem outputs_eq_of_foresight (rel : σ → τ → List ι → Prop) {m : Mealy σ ι ο} {n : Mealy τ ι ο}
    (step : ∀ s t x xs, rel s t (x :: xs) →
      (m s x).2 = (n t x).2 ∧ rel (m s x).1 (n t x).1 xs) :
    ∀ (xs : List ι) (s : σ) (t : τ), rel s t xs →
      m.outputs s xs = n.outputs t xs ∧ rel (m.stateAfter s xs) (n.stateAfter t xs) [] := by
  intro xs
  induction xs with
  | nil =>
    intro s t hrel
    exact ⟨rfl, hrel⟩
  | cons x xs ih =>
    intro s t hrel
    obtain ⟨hout, hrel'⟩ := step s t x xs hrel
    obtain ⟨houts, hend⟩ := ih (m s x).1 (n t x).1 hrel'
    exact ⟨by simp only [outputs_cons, hout, houts], hend⟩

/-- The same for a relation of the states alone, over admissible inputs. -/
theorem outputs_eq_of_simulation {m : Mealy σ ι ο} {n : Mealy τ ι ο} {rel : σ → τ → Prop}
    {ok : ι → Prop}
    (step : ∀ s t x, rel s t → ok x → (m s x).2 = (n t x).2 ∧ rel (m s x).1 (n t x).1)
    (xs : List ι) (s : σ) (t : τ) (hrel : rel s t) (hok : ∀ x ∈ xs, ok x) :
    m.outputs s xs = n.outputs t xs ∧ rel (m.stateAfter s xs) (n.stateAfter t xs) := by
  have foresight : ∀ s t x xs, rel s t ∧ (∀ y ∈ x :: xs, ok y) →
      (m s x).2 = (n t x).2 ∧ rel (m s x).1 (n t x).1 ∧ ∀ y ∈ xs, ok y := by
    intro s t x xs ⟨hrel, hok⟩
    obtain ⟨hout, hrel'⟩ := step s t x hrel (hok x (by simp))
    exact ⟨hout, hrel', fun y hy => hok y (List.mem_cons_of_mem _ hy)⟩
  obtain ⟨hout, hend, -⟩ := outputs_eq_of_foresight
    (fun s t xs => rel s t ∧ ∀ y ∈ xs, ok y) foresight xs s t ⟨hrel, hok⟩
  exact ⟨hout, hend⟩

/-- A view of the states that the steps respect is respected by the runs. -/
theorem stateAfter_view (view : σ → τ) {m : Mealy σ ι ο} {n : Mealy τ ι ο} {inv : σ → Prop}
    {ok : ι → Prop} (keeps : ∀ s x, inv s → ok x → inv (m s x).1)
    (step : ∀ s x, inv s → ok x → view (m s x).1 = (n (view s) x).1) :
    ∀ (xs : List ι) (s : σ), inv s → (∀ x ∈ xs, ok x) →
      view (m.stateAfter s xs) = n.stateAfter (view s) xs := by
  intro xs
  induction xs with
  | nil =>
    intro s _ _
    rfl
  | cons x xs ih =>
    intro s hs hok
    obtain ⟨hx, hok⟩ := List.forall_mem_cons.mp hok
    simp only [stateAfter_cons, ← step s x hs hx]
    exact ih (m s x).1 (keeps s x hs hx) hok

/-- A part of the state that only some inputs move runs on them alone. -/
theorem stateAfter_of_component {κ : Type} (view : σ → τ) (own : ι → Option κ)
    {inv : σ → Prop} {ok : ι → Prop} {β : Type} {m : Mealy σ ι ο} {n : Mealy τ κ β}
    (keeps : ∀ s x, inv s → ok x → inv (m s x).1)
    (moved : ∀ s x k, inv s → ok x → own x = some k → view (m s x).1 = (n (view s) k).1)
    (still : ∀ s x, inv s → ok x → own x = none → view (m s x).1 = view s) :
    ∀ (xs : List ι) (s : σ), inv s → (∀ x ∈ xs, ok x) →
      view (m.stateAfter s xs) = n.stateAfter (view s) (xs.filterMap own) := by
  intro xs
  induction xs with
  | nil =>
    intro s _ _
    rfl
  | cons x xs ih =>
    intro s hs hok
    obtain ⟨hx, hok⟩ := List.forall_mem_cons.mp hok
    have rest := ih (m s x).1 (keeps s x hs hx) hok
    cases hown : own x with
    | none => rw [List.filterMap_cons_none hown, stateAfter_cons, rest, still s x hs hx hown]
    | some k =>
      rw [List.filterMap_cons_some hown, stateAfter_cons, stateAfter_cons, rest,
        moved s x k hs hx hown]

section Noting

variable {α : Type}

/-- What a run notes down: what `note` finds worth keeping of each step, in order. -/
def noted (m : Mealy σ ι ο) (note : σ → ι → Option α) : σ → List ι → List α
  | _, [] => []
  | s, x :: xs => (note s x).toList ++ noted m note (m s x).1 xs

theorem noted_append (m : Mealy σ ι ο) (note : σ → ι → Option α) (xs ys : List ι) (s : σ) :
    m.noted note s (xs ++ ys) = m.noted note s xs ++ m.noted note (m.stateAfter s xs) ys := by
  induction xs generalizing s with
  | nil => rfl
  | cons x xs ih => simp only [List.cons_append, noted, stateAfter_cons, ih, List.append_assoc]

theorem noted_concat (m : Mealy σ ι ο) (note : σ → ι → Option α) (xs : List ι) (x : ι) (s : σ) :
    m.noted note s (xs ++ [x]) = m.noted note s xs ++ (note (m.stateAfter s xs) x).toList := by
  rw [noted_append, noted, noted, List.append_nil]

/-- A relation between the state and the notes that every admissible step keeps holds after
every admissible run. -/
theorem noted_keeps {m : Mealy σ ι ο} {note : σ → ι → Option α} {rel : σ → List α → Prop}
    {ok : ι → Prop}
    (step : ∀ s notes x, rel s notes → ok x → rel (m s x).1 (notes ++ (note s x).toList))
    {s : σ} (start : rel s []) (xs : List ι) (hok : ∀ x ∈ xs, ok x) :
    rel (m.stateAfter s xs) (m.noted note s xs) := by
  induction xs using List.reverseRecOn with
  | nil => exact start
  | append_singleton xs x ih =>
    rw [stateAfter_concat, noted_concat]
    exact step _ _ x (ih fun y hy => hok y (List.mem_append_left _ hy)) (hok x (by simp))

/-- What a run that keeps an invariant notes down is what its steps note in such states. -/
theorem noted_forall {m : Mealy σ ι ο} {note : σ → ι → Option α} {P : α → Prop} (inv : σ → Prop)
    (keeps : ∀ s x, inv s → inv (m s x).1) (notes : ∀ s x a, inv s → note s x = some a → P a)
    {s : σ} (xs : List ι) (hs : inv s) : ∀ a ∈ m.noted note s xs, P a := by
  have step : ∀ s as x, (inv s ∧ ∀ a ∈ as, P a) → True →
      inv (m s x).1 ∧ ∀ a ∈ as ++ (note s x).toList, P a := by
    intro s as x rel _
    refine ⟨keeps s x rel.1, fun a ha => ?_⟩
    rcases List.mem_append.mp ha with ha | ha
    · exact rel.2 a ha
    · exact notes s x a rel.1 (Option.mem_toList.mp ha)
  exact (noted_keeps step ⟨hs, nofun⟩ xs fun _ _ => trivial).2

/-- What a run notes down of the inputs that move a part of the state is what the part answers,
run on them alone. -/
theorem noted_of_component {κ : Type} (view : σ → τ) (own : ι → Option κ) (inv : σ → Prop)
    {m : Mealy σ ι ο} {n : Mealy τ κ α} {note : σ → ι → Option α}
    (keeps : ∀ s x, inv s → inv (m s x).1)
    (moved : ∀ s x k, inv s → own x = some k →
      view (m s x).1 = (n (view s) k).1 ∧ note s x = some (n (view s) k).2)
    (still : ∀ s x, inv s → own x = none → view (m s x).1 = view s ∧ note s x = none)
    (xs : List ι) (s : σ) (hs : inv s) :
    m.noted note s xs = n.outputs (view s) (xs.filterMap own) := by
  induction xs generalizing s with
  | nil => rfl
  | cons x xs ih =>
    have notes := ih (m s x).1 (keeps s x hs)
    cases hx : own x with
    | none =>
      obtain ⟨same, none⟩ := still s x hs hx
      rw [List.filterMap_cons_none hx, noted, none, notes, same]
      rfl
    | some k =>
      obtain ⟨next, answer⟩ := moved s x k hs hx
      rw [List.filterMap_cons_some hx, noted, answer, notes, next]
      rfl

end Noting

section Accepting

variable {m : Mealy σ ι Bool}

/-- The inputs answered with yes, in order. -/
def accepted (m : Mealy σ ι Bool) : σ → List ι → List ι
  | _, [] => []
  | s, x :: xs =>
      if (m s x).2 then x :: accepted m (m s x).1 xs else accepted m (m s x).1 xs

/-- An accepted input was met at some point of the run, after the ones accepted before. -/
theorem exists_of_accepted_eq {before after : List ι} {x : ι} {xs : List ι} {s : σ}
    (h : m.accepted s xs = before ++ x :: after) :
    ∃ done rest, xs = done ++ x :: rest ∧ m.accepted s done = before ∧
      (m (m.stateAfter s done) x).2 = true := by
  induction xs generalizing s before with
  | nil => simp [accepted] at h
  | cons y ys ih =>
    unfold accepted at h
    by_cases hy : (m s y).2 = true
    · rw [if_pos hy] at h
      cases before with
      | nil =>
        obtain ⟨rfl, -⟩ := List.cons.inj h
        exact ⟨[], ys, rfl, rfl, hy⟩
      | cons z before =>
        obtain ⟨rfl, htail⟩ := List.cons.inj h
        obtain ⟨done, rest, rfl, hbefore, hx⟩ := ih htail
        refine ⟨y :: done, rest, rfl, ?_, hx⟩
        rw [accepted, if_pos hy, hbefore]
    · rw [if_neg hy] at h
      obtain ⟨done, rest, rfl, hbefore, hx⟩ := ih h
      refine ⟨y :: done, rest, rfl, ?_, hx⟩
      rw [accepted, if_neg hy, hbefore]

end Accepting

section Spending

variable {M : Type} [AddCommMonoid M]

/-- What a run spends, step by step. -/
def spent (m : Mealy σ ι ο) (cost : σ → ι → M) : σ → List ι → M
  | _, [] => 0
  | s, x :: xs => cost s x + spent m cost (m s x).1 xs

@[simp] theorem spent_nil (m : Mealy σ ι ο) (cost : σ → ι → M) (s : σ) :
    m.spent cost s [] = 0 := rfl

@[simp] theorem spent_cons (m : Mealy σ ι ο) (cost : σ → ι → M) (s : σ) (x : ι) (xs : List ι) :
    m.spent cost s (x :: xs) = cost s x + m.spent cost (m s x).1 xs := rfl

theorem spent_append (m : Mealy σ ι ο) (cost : σ → ι → M) (xs ys : List ι) (s : σ) :
    m.spent cost s (xs ++ ys) = m.spent cost s xs + m.spent cost (m.stateAfter s xs) ys := by
  induction xs generalizing s with
  | nil => simp
  | cons x xs ih => simp only [List.cons_append, spent_cons, stateAfter_cons, ih, add_assoc]

theorem spent_concat (m : Mealy σ ι ο) (cost : σ → ι → M) (xs : List ι) (x : ι) (s : σ) :
    m.spent cost s (xs ++ [x]) = m.spent cost s xs + cost (m.stateAfter s xs) x := by
  rw [spent_append, spent_cons, spent_nil, add_zero]

theorem spent_add (m : Mealy σ ι ο) (cost cost' : σ → ι → M) (xs : List ι) (s : σ) :
    m.spent (fun s x => cost s x + cost' s x) s xs = m.spent cost s xs + m.spent cost' s xs := by
  induction xs generalizing s with
  | nil => simp
  | cons x xs ih => simp only [spent_cons, ih, add_add_add_comm]

/-- Spending may be converted before or after it is added up. -/
theorem map_spent {N : Type} [AddCommMonoid N] (φ : M →+ N) (m : Mealy σ ι ο)
    (cost : σ → ι → M) (xs : List ι) (s : σ) :
    φ (m.spent cost s xs) = m.spent (fun s x => φ (cost s x)) s xs := by
  induction xs generalizing s with
  | nil => simp
  | cons x xs ih => simp only [spent_cons, map_add, ih]

theorem spent_mul_left (m : Mealy σ ι ο) (c : ℕ) (cost : σ → ι → ℕ) (xs : List ι) (s : σ) :
    m.spent (fun s x => c * cost s x) s xs = c * m.spent cost s xs :=
  (map_spent (AddMonoidHom.mulLeft c) m cost xs s).symm

/-- Spending seen through a view of the states. -/
theorem spent_view (view : σ → τ) {m : Mealy σ ι ο} {n : Mealy τ ι ο} {inv : σ → Prop}
    {ok : ι → Prop} {cost : σ → ι → M} {cost' : τ → ι → M}
    (keeps : ∀ s x, inv s → ok x → inv (m s x).1)
    (step : ∀ s x, inv s → ok x → view (m s x).1 = (n (view s) x).1)
    (same : ∀ s x, inv s → ok x → cost s x = cost' (view s) x) :
    ∀ (xs : List ι) (s : σ), inv s → (∀ x ∈ xs, ok x) →
      m.spent cost s xs = n.spent cost' (view s) xs := by
  intro xs
  induction xs with
  | nil =>
    intro s _ _
    rfl
  | cons x xs ih =>
    intro s hs hok
    obtain ⟨hx, hok⟩ := List.forall_mem_cons.mp hok
    simp only [spent_cons, same s x hs hx, ← step s x hs hx]
    rw [ih (m s x).1 (keeps s x hs hx) hok]

/-- Costs that agree wherever an admissible run comes add up to the same. -/
theorem spent_congr {m : Mealy σ ι ο} {inv : σ → Prop} {ok : ι → Prop} {cost cost' : σ → ι → M}
    (keeps : ∀ s x, inv s → ok x → inv (m s x).1)
    (same : ∀ s x, inv s → ok x → cost s x = cost' s x) (xs : List ι) (s : σ) (hs : inv s)
    (hok : ∀ x ∈ xs, ok x) : m.spent cost s xs = m.spent cost' s xs :=
  spent_view id keeps (fun _ _ _ _ => rfl) same xs s hs hok

theorem spent_eq_zero {m : Mealy σ ι ο} {inv : σ → Prop} {ok : ι → Prop} {cost : σ → ι → M}
    (keeps : ∀ s x, inv s → ok x → inv (m s x).1)
    (free : ∀ s x, inv s → ok x → cost s x = 0) :
    ∀ (xs : List ι) (s : σ), inv s → (∀ x ∈ xs, ok x) → m.spent cost s xs = 0 := by
  intro xs
  induction xs with
  | nil =>
    intro s _ _
    rfl
  | cons x xs ih =>
    intro s hs hok
    obtain ⟨hx, hok⟩ := List.forall_mem_cons.mp hok
    simp only [spent_cons, free s x hs hx, zero_add]
    exact ih (m s x).1 (keeps s x hs hx) hok

/-- A counter, kept modulo `n`, that every admissible step raises by what its input adds. -/
theorem total_stateAfter {n : ℕ} (total : σ → ℕ) {m : Mealy σ ι ο} {inv : σ → Prop}
    {ok : ι → Prop} {amount : ι → ℕ} (keeps : ∀ s x, inv s → ok x → inv (m s x).1)
    (adds : ∀ s x, inv s → ok x → total (m s x).1 ≡ total s + amount x [MOD n]) :
    ∀ (xs : List ι) (s : σ), inv s → (∀ x ∈ xs, ok x) →
      total (m.stateAfter s xs) ≡ total s + (xs.map amount).sum [MOD n] := by
  intro xs
  induction xs with
  | nil =>
    intro s _ _
    rfl
  | cons x xs ih =>
    intro s hs hok
    obtain ⟨hx, hok⟩ := List.forall_mem_cons.mp hok
    have rest := ih (m s x).1 (keeps s x hs hx) hok
    rw [List.map_cons, List.sum_cons, ← Nat.add_assoc]
    exact rest.trans ((adds s x hs hx).add_right _)

/-- A clock that never runs backwards: what it gains step by step is what it gains
over the run. -/
theorem add_spent_gain {m : Mealy σ ι ο} {inv : σ → Prop} {ok : ι → Prop} {clock : σ → ℕ}
    (keeps : ∀ s x, inv s → ok x → inv (m s x).1)
    (mono : ∀ s x, inv s → ok x → clock s ≤ clock (m s x).1) :
    ∀ (xs : List ι) (s : σ), inv s → (∀ x ∈ xs, ok x) →
      clock s + m.spent (fun s x => clock (m s x).1 - clock s) s xs =
        clock (m.stateAfter s xs) := by
  intro xs
  induction xs with
  | nil =>
    intro s _ _
    simp
  | cons x xs ih =>
    intro s hs hok
    obtain ⟨hx, hok⟩ := List.forall_mem_cons.mp hok
    have step := mono s x hs hx
    have rest := ih (m s x).1 (keeps s x hs hx) hok
    simp only [spent_cons, stateAfter_cons]
    omega

/-- The amortised bound: when every admissible step pays its cost out of the
potential and a credit, the run's cost is paid by the potential it started with
and the credits it collected. -/
theorem spent_le_of_potential [PartialOrder M] [IsOrderedAddMonoid M]
    {m : Mealy σ ι ο} {inv : σ → Prop} {ok : ι → Prop} {cost credit : σ → ι → M} {pot : σ → M}
    (keeps : ∀ s x, inv s → ok x → inv (m s x).1)
    (pays : ∀ s x, inv s → ok x → cost s x + pot (m s x).1 ≤ pot s + credit s x) :
    ∀ (xs : List ι) (s : σ), inv s → (∀ x ∈ xs, ok x) →
      m.spent cost s xs + pot (m.stateAfter s xs) ≤ pot s + m.spent credit s xs := by
  intro xs
  induction xs with
  | nil =>
    intro s _ _
    simp
  | cons x xs ih =>
    intro s hs hok
    obtain ⟨hx, hok⟩ := List.forall_mem_cons.mp hok
    have step := pays s x hs hx
    have rest := ih (m s x).1 (keeps s x hs hx) hok
    simp only [spent_cons, stateAfter_cons]
    calc cost s x + m.spent cost (m s x).1 xs + pot (m.stateAfter (m s x).1 xs)
        = cost s x + (m.spent cost (m s x).1 xs + pot (m.stateAfter (m s x).1 xs)) :=
          add_assoc _ _ _
      _ ≤ cost s x + (pot (m s x).1 + m.spent credit (m s x).1 xs) := by gcongr
      _ = cost s x + pot (m s x).1 + m.spent credit (m s x).1 xs := (add_assoc _ _ _).symm
      _ ≤ pot s + credit s x + m.spent credit (m s x).1 xs := by gcongr
      _ = pot s + (credit s x + m.spent credit (m s x).1 xs) := add_assoc _ _ _

end Spending

end Mealy

end VmWatcher

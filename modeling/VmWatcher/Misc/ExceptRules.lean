import Mathlib.Data.List.Basic

/-!
# Programs that may fail

When a program in `Except` succeeds: one rule for each way such programs are put
together, and the invariant rule of a loop.
-/

namespace VmWatcher

namespace ExceptRules

variable {ε ε' α β : Type}

@[simp] theorem bind_eq_ok {x : Except ε α} {f : α → Except ε β} {b : β} :
    (x >>= f) = .ok b ↔ ∃ a, x = .ok a ∧ f a = .ok b := by
  cases x with
  | error e => exact ⟨nofun, by rintro ⟨a, h, -⟩; cases h⟩
  | ok a => exact ⟨fun h => ⟨a, rfl, h⟩, by rintro ⟨a', h, h'⟩; cases h; exact h'⟩

@[simp] theorem pure_eq_ok {a b : α} : (pure a : Except ε α) = .ok b ↔ a = b :=
  ⟨fun h => by cases h; rfl, fun h => by rw [h]; rfl⟩

@[simp] theorem throw_ne_ok {e : ε} {b : α} : ¬(throw e : Except ε α) = .ok b := nofun

@[simp] theorem map_eq_ok {x : Except ε α} {f : α → β} {b : β} :
    x.map f = .ok b ↔ ∃ a, x = .ok a ∧ f a = b := by
  cases x with
  | error e => exact ⟨nofun, by rintro ⟨a, h, -⟩; cases h⟩
  | ok a => exact ⟨fun h => ⟨a, rfl, by cases h; rfl⟩, by rintro ⟨a', h, rfl⟩; cases h; rfl⟩

@[simp] theorem functor_map_eq_ok {x : Except ε α} {f : α → β} {b : β} :
    (f <$> x) = .ok b ↔ ∃ a, x = .ok a ∧ f a = b := map_eq_ok

@[simp] theorem mapError_eq_ok {x : Except ε α} {f : ε → ε'} {a : α} :
    x.mapError f = .ok a ↔ x = .ok a := by
  cases x with
  | error e => exact ⟨nofun, nofun⟩
  | ok b => exact ⟨fun h => by cases h; rfl, fun h => by cases h; rfl⟩

/-- A check passes when its condition does not hold. -/
theorem check_eq_ok {γ : Type} {c : Prop} [Decidable c] {e : ε} {f : γ → Except ε β}
    {x : Except ε β} {b : β} :
    (if c then (throw e : Except ε γ) >>= f else x) = .ok b ↔ ¬ c ∧ x = .ok b := by
  by_cases h : c
  · rw [if_pos h]
    exact ⟨nofun, fun all => absurd h all.1⟩
  · rw [if_neg h]
    exact ⟨fun hx => ⟨h, hx⟩, And.right⟩

/-- Everything a successful traversal returns comes from one of the inputs. -/
theorem mem_of_mapM_eq_ok {f : α → Except ε β} {xs : List α} {ys : List β}
    (h : xs.mapM f = .ok ys) : ∀ y ∈ ys, ∃ x ∈ xs, f x = .ok y := by
  induction xs generalizing ys with
  | nil =>
    rw [List.mapM_nil, pure_eq_ok] at h
    subst h
    simp
  | cons x xs ih =>
    simp only [List.mapM_cons, bind_eq_ok, pure_eq_ok] at h
    obtain ⟨y, hy, rest, hrest, rfl⟩ := h
    intro z hz
    rcases List.mem_cons.mp hz with rfl | hz
    · exact ⟨x, List.mem_cons_self, hy⟩
    · obtain ⟨x', hx', hz⟩ := ih hrest z hz
      exact ⟨x', List.mem_cons_of_mem _ hx', hz⟩

/-- What every round of a loop keeps holds when the loop succeeds. -/
theorem foldlM_invariant {f : β → α → Except ε β} {xs : List α} {p : β → Prop}
    (keeps : ∀ x ∈ xs, ∀ b b', p b → f b x = .ok b' → p b') {b b' : β} (hb : p b)
    (h : xs.foldlM f b = .ok b') : p b' := by
  induction xs generalizing b with
  | nil =>
    rw [List.foldlM_nil, pure_eq_ok] at h
    exact h ▸ hb
  | cons x xs ih =>
    simp only [List.foldlM_cons, bind_eq_ok] at h
    obtain ⟨next, hnext, hrest⟩ := h
    exact ih (fun x' hx' => keeps x' (List.mem_cons_of_mem _ hx'))
      (keeps x List.mem_cons_self b next hb hnext) hrest

end ExceptRules

end VmWatcher

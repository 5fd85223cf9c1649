import Mathlib.Data.List.Basic
import Mathlib.Data.Nat.Notation

/-!
# Slots

A list of slots that are changed one at a time, and how many of them have a property.
-/

namespace VmWatcher

namespace Slots

variable {α : Type} {p : α → Bool} {slots : List α} {i j : ℕ} {a b : α}

/-- A changed slot counts for what it is now, and no more for what it was. -/
theorem countP_set (h : slots[i]? = some a) (b : α) :
    (slots.set i b).countP p + (p a).toNat = slots.countP p + (p b).toNat := by
  induction slots generalizing i with
  | nil => simp at h
  | cons c slots ih =>
    cases i with
    | zero =>
      obtain rfl : c = a := by simpa using h
      simp only [List.set_cons_zero, List.countP_cons]
      cases p c <;> cases p b <;> simp
    | succ i =>
      have := ih (i := i) (by simpa using h)
      simp only [List.set_cons_succ, List.countP_cons]
      omega

theorem countP_pos (h : slots[i]? = some a) (own : p a = true) : 0 < slots.countP p :=
  List.countP_pos_iff.mpr ⟨a, List.mem_of_getElem? h, own⟩

/-- Where one slot at most has the property, it is one slot. -/
theorem eq_of_countP_le_one (single : slots.countP p ≤ 1) (ha : slots[i]? = some a)
    (hb : slots[j]? = some b) (own : p a = true) (other : p b = true) : i = j := by
  induction slots generalizing i j with
  | nil => simp at ha
  | cons c slots ih =>
    rw [List.countP_cons] at single
    cases i with
    | zero =>
      obtain rfl : c = a := by simpa using ha
      cases j with
      | zero => rfl
      | succ j =>
        have := countP_pos (i := j) (by simpa using hb) other
        rw [if_pos own] at single
        omega
    | succ i =>
      cases j with
      | zero =>
        obtain rfl : c = b := by simpa using hb
        have := countP_pos (i := i) (by simpa using ha) own
        rw [if_pos other] at single
        omega
      | succ j =>
        exact congrArg (· + 1) (ih (by omega) (by simpa using ha) (by simpa using hb))

end Slots

end VmWatcher

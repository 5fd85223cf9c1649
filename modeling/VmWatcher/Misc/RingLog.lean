import Mathlib.Algebra.BigOperators.Group.List.Basic
import Mathlib.Algebra.GroupWithZero.Nat
import Mathlib.Algebra.Order.BigOperators.Group.List
import Mathlib.Data.List.Rotate

/-!
# A ring of slots as a bounded log

A ring that is written at a cursor and never read out holds the last entries of the log
of everything written to it. `Holds` says so: read from the cursor on, the ring is the
end of the log, after as many blank slots as were never written.
-/

namespace VmWatcher.RingLog

variable {α : Type}

/-- The last `cap` entries of a log, after blank slots where it is shorter. -/
def lastOf (cap : ℕ) (blank : α) (log : List α) : List α :=
  (List.replicate cap blank ++ log).drop log.length

/-- The ring, read from the cursor on, is the end of the log. -/
def Holds (blank : α) (ring : List α) (cursor : ℕ) (log : List α) : Prop :=
  ring.rotate cursor = lastOf ring.length blank log

variable {blank e : α} {ring log : List α} {cursor cap : ℕ}

theorem lastOf_concat (hcap : 0 < cap) :
    lastOf cap blank (log ++ [e]) = (lastOf cap blank log).tail ++ [e] := by
  have hlen : log.length + 1 ≤ (List.replicate cap blank ++ log).length := by
    simp
    omega
  unfold lastOf
  rw [List.tail_drop, ← List.append_assoc, List.length_append, List.length_singleton,
    List.drop_append_of_le_length hlen]

/-- Writing at the cursor drops the oldest slot and appends a new one. -/
theorem rotate_set (h : cursor < ring.length) :
    (ring.set cursor e).rotate (cursor + 1) = (ring.rotate cursor).tail ++ [e] := by
  have hset : cursor + 1 ≤ (ring.set cursor e).length := by
    rw [List.length_set]
    exact h
  rw [List.rotate_eq_drop_append_take hset, List.rotate_eq_drop_append_take h.le]
  have hdrop : (ring.set cursor e).drop (cursor + 1) = ring.drop (cursor + 1) :=
    List.drop_set_of_lt (Nat.lt_succ_self cursor)
  have htake : (ring.set cursor e).take (cursor + 1) = ring.take cursor ++ [e] := by
    rw [List.take_succ_eq_append_getElem (by simpa using h), List.getElem_set_self,
      List.take_set_of_le (le_refl cursor)]
  have hne : ring.drop cursor ≠ [] := by
    rw [Ne, List.drop_eq_nil_iff]
    omega
  rw [hdrop, htake, List.tail_append_of_ne_nil hne, List.tail_drop, List.append_assoc]

/-- A ring of blank slots holds the empty log. -/
theorem holds_blank : Holds blank (List.replicate cap blank) 0 [] := by
  simp [Holds, lastOf]

/-- A write at the cursor is an entry of the log. -/
theorem Holds.write (h : Holds blank ring cursor log) (hcursor : cursor < ring.length) :
    Holds blank (ring.set cursor e) (cursor + 1) (log ++ [e]) := by
  have hcap : 0 < ring.length := Nat.zero_lt_of_lt hcursor
  unfold Holds at h ⊢
  rw [rotate_set hcursor, h, List.length_set, lastOf_concat hcap]

/-- Only the cursor's place in the ring matters. -/
theorem holds_mod : Holds blank ring (cursor % ring.length) log ↔ Holds blank ring cursor log := by
  rw [Holds, List.rotate_mod]
  rfl

/-- A total over the slots is the total over the last entries of the log. -/
theorem Holds.sum_map (h : Holds blank ring cursor log) (weight : α → ℕ)
    (hblank : weight blank = 0) :
    (ring.map weight).sum = ((log.drop (log.length - ring.length)).map weight).sum := by
  have hrotate : (ring.map weight).sum = ((lastOf ring.length blank log).map weight).sum := by
    rw [← h]
    exact ((List.rotate_perm ring cursor).map weight).symm.sum_eq
  rw [hrotate, lastOf, List.drop_append, List.map_append, List.sum_append]
  simp [hblank]

/-- The slots hold blanks and entries of the log. -/
theorem Holds.mem (h : Holds blank ring cursor log) {x : α} (hx : x ∈ ring) :
    x = blank ∨ x ∈ log := by
  rw [← List.mem_rotate (n := cursor), h] at hx
  rcases List.mem_append.mp (List.mem_of_mem_drop hx) with hx | hx
  · exact Or.inl (List.eq_of_mem_replicate hx)
  · exact Or.inr hx

end VmWatcher.RingLog

import Mathlib.Data.List.Basic

/-!
# Requests of which only the latest counts

A party makes requests one after the other, each under the next number and for some key.
Their answers are outstanding in no particular order. Whoever accepts only answers under
the latest number gets an answer for the key of the latest request (`Sound.latest`), and
not for a key that was chosen since.
-/

namespace VmWatcher

structure Tickets (K : Type) where
  seq : ℕ
  latest : Option K
  outstanding : List (ℕ × K)

namespace Tickets

variable {K : Type} {t u : Tickets K}

/-- A request under the next number. -/
def issue (t : Tickets K) (k : K) : Tickets K :=
  ⟨t.seq + 1, some k, t.outstanding ++ [(t.seq + 1, k)]⟩

/-- No number is ahead of the latest, and the latest is that of the latest request. -/
structure Sound (t : Tickets K) : Prop where
  bounded : ∀ e ∈ t.outstanding, e.1 ≤ t.seq
  latest : ∀ e ∈ t.outstanding, e.1 = t.seq → t.latest = some e.2

theorem Sound.empty (seq : ℕ) (latest : Option K) : Sound ⟨seq, latest, []⟩ :=
  ⟨by simp, by simp⟩

theorem Sound.issue (h : t.Sound) (k : K) : (t.issue k).Sound := by
  constructor
  · intro e he
    rcases List.mem_append.mp he with he | he
    · exact Nat.le_succ_of_le (h.bounded e he)
    · rw [List.mem_singleton.mp he]
      exact Nat.le_refl _
  · intro e he same
    rcases List.mem_append.mp he with he | he
    · have behind := h.bounded e he
      have ahead : e.1 = t.seq + 1 := same
      omega
    · rw [List.mem_singleton.mp he]
      rfl

/-- Answers may go missing. -/
theorem Sound.mono (h : t.Sound) (seq : u.seq = t.seq) (latest : u.latest = t.latest)
    (sub : u.outstanding ⊆ t.outstanding) : u.Sound := by
  constructor
  · intro e he
    rw [seq]
    exact h.bounded e (sub he)
  · intro e he same
    rw [latest]
    exact h.latest e (sub he) (same.trans seq)

end Tickets

end VmWatcher

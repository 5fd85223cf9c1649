import Mathlib.Data.List.Basic
import Mathlib.Logic.Basic

/-!
# Runs of a transition function

`trace step s events` is the run of the events from `s`, where every event has to be
possible: its steps, each with the state before it, and the state it ends in.

`trace_steps_iff` is the rule for a system where steps one can name do not do what steps
should, and `trace_good_iff` the rule for a system that goes wrong only at steps one can name: such
a step leads to a state that is not good, and every other step keeps an invariant of which
good states are made.
-/

namespace VmWatcher

variable {S E : Type} {step : S → E → Option S}

/-- What every step keeps holds where a run ends. -/
theorem foldlM_keeps {p : S → Prop} (keeps : ∀ s e t, p s → step s e = some t → p t)
    {events : List E} {s t : S} (start : p s) (run : events.foldlM step s = some t) : p t := by
  induction events generalizing s with
  | nil =>
    obtain rfl := Option.some.inj run
    exact start
  | cons e events ih =>
    rw [List.foldlM_cons, Option.bind_eq_bind, Option.bind_eq_some_iff] at run
    obtain ⟨mid, first, rest⟩ := run
    exact ih (keeps s e mid start first) rest

def trace (step : S → E → Option S) : S → List E → Option (List (S × E) × S)
  | s, [] => some ([], s)
  | s, e :: events => do
    let t ← step s e
    let (steps, last) ← trace step t events
    return ((s, e) :: steps, last)

theorem trace_cons {s : S} {e : E} {events : List E} {steps : List (S × E)} {last : S}
    (h : trace step s (e :: events) = some (steps, last)) :
    ∃ t rest, step s e = some t ∧ trace step t events = some (rest, last) ∧
      steps = (s, e) :: rest := by
  simp only [trace, Option.bind_eq_bind, Option.bind_eq_some_iff] at h
  obtain ⟨t, ht, ⟨rest, final⟩, hr, hp⟩ := h
  simp only [Option.pure_def, Option.some.injEq, Prod.mk.injEq] at hp
  obtain ⟨rfl, rfl⟩ := hp
  exact ⟨t, rest, ht, hr, rfl⟩

/-- A run passes through the state it starts in. -/
theorem trace_head {s : S} {events : List E} {steps : List (S × E)} {last : S}
    (h : trace step s events = some (steps, last)) :
    last = s ∨ ∃ e rest, steps = (s, e) :: rest := by
  cases events with
  | nil =>
    simp only [trace, Option.some.injEq, Prod.mk.injEq] at h
    exact .inl h.2.symm
  | cons e events =>
    obtain ⟨t, rest, -, -, rfl⟩ := trace_cons h
    exact .inr ⟨e, rest, rfl⟩

/-- All states of a run are good exactly when it takes none of the bad steps. -/
theorem trace_good_iff {Inv Good : S → Prop} {Bad : S → E → Prop}
    (good : ∀ s, Inv s → Good s)
    (keeps : ∀ s e t, Inv s → step s e = some t → ¬ Bad s e → Inv t)
    (breaks : ∀ s e t, Inv s → step s e = some t → Bad s e → ¬ Good t)
    {s : S} (h : Inv s) {events : List E} {steps : List (S × E)} {last : S}
    (run : trace step s events = some (steps, last)) :
    ((∀ p ∈ steps, Good p.1) ∧ Good last) ↔ ∀ p ∈ steps, ¬ Bad p.1 p.2 := by
  induction events generalizing s steps with
  | nil =>
    simp only [trace, Option.some.injEq, Prod.mk.injEq] at run
    obtain ⟨rfl, rfl⟩ := run
    simpa using good _ h
  | cons e events ih =>
    obtain ⟨t, rest, ht, hrest, rfl⟩ := trace_cons run
    simp only [List.forall_mem_cons, good s h, true_and]
    by_cases bad : Bad s e
    · refine ⟨fun after => ?_, fun free => absurd bad free.1⟩
      have wrong := breaks s e t h ht bad
      rcases trace_head hrest with rfl | ⟨e', rest', rfl⟩
      · exact absurd after.2 wrong
      · exact absurd (after.1 _ List.mem_cons_self) wrong
    · rw [ih (keeps s e t h ht bad) hrest]
      simp [bad]

/-- All steps of a run from states that admit it do what they should exactly when the run
takes none of the bad steps. -/
theorem trace_steps_iff {Inv Admits : S → Prop} {Good : S → E → S → Prop} {Bad : S → E → Prop}
    (keeps : ∀ s e t, Inv s → step s e = some t → Inv t)
    (exact : ∀ s e t, Inv s → Admits s → step s e = some t → (Good s e t ↔ ¬ Bad s e))
    {s : S} (h : Inv s) {events : List E} {steps : List (S × E)} {last : S}
    (run : trace step s events = some (steps, last)) (admits : ∀ p ∈ steps, Admits p.1) :
    (∀ p ∈ steps, ∀ t, step p.1 p.2 = some t → Good p.1 p.2 t) ↔ ∀ p ∈ steps, ¬ Bad p.1 p.2 := by
  induction events generalizing s steps with
  | nil =>
    simp only [trace, Option.some.injEq, Prod.mk.injEq] at run
    obtain ⟨rfl, rfl⟩ := run
    simp
  | cons e events ih =>
    obtain ⟨t, rest, ht, hrest, rfl⟩ := trace_cons run
    obtain ⟨now, later⟩ := List.forall_mem_cons.mp admits
    have first : (∀ t', step s e = some t' → Good s e t') ↔ ¬ Bad s e := by
      rw [← exact s e t h now ht, ht]
      simp
    rw [List.forall_mem_cons, List.forall_mem_cons, first, ih (keeps s e t h ht) hrest later]

end VmWatcher

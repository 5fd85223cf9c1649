import Mathlib.Data.List.Nodup

/-!
# Handles that are released once

A ledger of the handles that were obtained from some resource and of those that were
given back. `Accounted` says of a ledger, and of the handles that are held under each
key, that no handle was lost, held twice or released twice.
-/

namespace VmWatcher

variable {H K : Type}

/-- The handles obtained so far, and those released, latest first. -/
@[ext] structure Handles (H : Type) where
  obtained : H → Prop
  released : List H

namespace Handles

/-- Nothing was obtained yet. -/
def none : Handles H := ⟨fun _ => False, []⟩

/-- Obtain some handles. -/
def obtain (s : Handles H) (hs : List H) : Handles H :=
  { s with obtained := fun h => h ∈ hs ∨ s.obtained h }

/-- Release some handles. -/
def release (s : Handles H) (hs : List H) : Handles H := { s with released := hs ++ s.released }

@[simp] theorem obtain_obtain (s : Handles H) (hs hs' : List H) :
    (s.obtain hs).obtain hs' = s.obtain (hs' ++ hs) := by
  ext h
  · simp [obtain, or_assoc]
  · rfl

@[simp] theorem release_release (s : Handles H) (hs hs' : List H) :
    (s.release hs).release hs' = s.release (hs' ++ hs) := by
  simp [release]

/-- Every handle obtained is held under one key or was released, once in either case. -/
structure Accounted (s : Handles H) (held : K → List H) : Prop where
  known : ∀ k, ∀ h ∈ held k, s.obtained h ∧ h ∉ s.released
  apart : ∀ k k' h, h ∈ held k → h ∈ held k' → k = k'
  distinct : ∀ k, (held k).Nodup
  given : ∀ h ∈ s.released, s.obtained h
  once : s.released.Nodup
  settled : ∀ h, s.obtained h → h ∈ s.released ∨ ∃ k, h ∈ held k

variable {s : Handles H} {held held' : K → List H} {hs : List H} {k : K}

theorem accounted_none : (none : Handles H).Accounted fun _ : K => [] where
  known := by simp
  apart := by simp
  distinct := by simp
  given := by simp [none]
  once := List.nodup_nil
  settled := by simp [none]

/-- The same handles are held under every key. -/
theorem Accounted.congr (a : s.Accounted held) (same : ∀ k, held' k = held k) :
    s.Accounted held' := by
  rw [funext same]
  exact a

/-- Fresh handles are obtained and released at once. -/
theorem Accounted.passing (a : s.Accounted held) (fresh : ∀ h ∈ hs, ¬ s.obtained h)
    (distinct : hs.Nodup) : ((s.obtain hs).release hs).Accounted held where
  known k h hh := by
    obtain ⟨ho, hr⟩ := a.known k h hh
    refine ⟨Or.inr ho, ?_⟩
    intro hmem
    rcases List.mem_append.mp hmem with hnew | hold
    · exact fresh h hnew ho
    · exact hr hold
  apart := a.apart
  distinct := a.distinct
  given h hh := (List.mem_append.mp hh).imp_right (a.given h)
  once := by
    refine List.nodup_append.mpr ⟨distinct, a.once, ?_⟩
    intro h hnew _ hold same
    subst same
    exact fresh h hnew (a.given h hold)
  settled h hh := by
    rcases hh with hnew | hold
    · exact Or.inl (List.mem_append_left _ hnew)
    · exact (a.settled h hold).imp_left (List.mem_append_right _)

/-- A handle that was obtained is held under exactly one key and was not released, or is
held under none and was released exactly once. -/
theorem Accounted.exactly_once [DecidableEq H] (a : s.Accounted held) {h : H} (ho : s.obtained h) :
    (∃! k, h ∈ held k) ∧ s.released.count h = 0 ∨
      (∀ k, h ∉ held k) ∧ s.released.count h = 1 := by
  by_cases hr : h ∈ s.released
  · exact Or.inr ⟨fun k hk => (a.known k h hk).2 hr, List.count_eq_one_of_mem a.once hr⟩
  · obtain ⟨k, hk⟩ := (a.settled h ho).resolve_left hr
    exact Or.inl ⟨⟨k, hk, fun k' hk' => a.apart k' k h hk' hk⟩, List.count_eq_zero.mpr hr⟩

variable [DecidableEq K]

/-- Fresh handles are obtained and held under a free key. -/
theorem Accounted.hold (a : s.Accounted held) (free : held k = [])
    (fresh : ∀ h ∈ hs, ¬ s.obtained h) (distinct : hs.Nodup) :
    (s.obtain hs).Accounted fun k' => if k' = k then hs else held k' where
  known k' h hh := by
    by_cases hk : k' = k
    · rw [if_pos hk] at hh
      exact ⟨Or.inl hh, fun hr => fresh h hh (a.given h hr)⟩
    · rw [if_neg hk] at hh
      exact ⟨Or.inr (a.known k' h hh).1, (a.known k' h hh).2⟩
  apart k₁ k₂ h h₁ h₂ := by
    by_cases e₁ : k₁ = k <;> by_cases e₂ : k₂ = k
    · rw [e₁, e₂]
    · rw [if_pos e₁] at h₁
      rw [if_neg e₂] at h₂
      exact absurd (a.known k₂ h h₂).1 (fresh h h₁)
    · rw [if_neg e₁] at h₁
      rw [if_pos e₂] at h₂
      exact absurd (a.known k₁ h h₁).1 (fresh h h₂)
    · rw [if_neg e₁] at h₁
      rw [if_neg e₂] at h₂
      exact a.apart k₁ k₂ h h₁ h₂
  distinct k' := by
    by_cases hk : k' = k
    · rw [if_pos hk]
      exact distinct
    · rw [if_neg hk]
      exact a.distinct k'
  given h hh := Or.inr (a.given h hh)
  once := a.once
  settled h hh := by
    rcases hh with hnew | hold
    · exact Or.inr ⟨k, by rwa [if_pos rfl]⟩
    · apply (a.settled h hold).imp_right
      intro there
      obtain ⟨k', hk'⟩ := there
      refine ⟨k', ?_⟩
      have other : k' ≠ k := fun e => by simp [e, free] at hk'
      rwa [if_neg other]

/-- What is held under a key is released. -/
theorem Accounted.free (a : s.Accounted held) (k : K) :
    (s.release (held k)).Accounted fun k' => if k' = k then [] else held k' where
  known k' h hh := by
    by_cases hk : k' = k
    · simp [hk] at hh
    · rw [if_neg hk] at hh
      obtain ⟨ho, hr⟩ := a.known k' h hh
      refine ⟨ho, ?_⟩
      intro hmem
      rcases List.mem_append.mp hmem with hnew | hold
      · exact hk (a.apart k' k h hh hnew)
      · exact hr hold
  apart k₁ k₂ h h₁ h₂ := by
    by_cases e₁ : k₁ = k
    · simp [e₁] at h₁
    · by_cases e₂ : k₂ = k
      · simp [e₂] at h₂
      · rw [if_neg e₁] at h₁
        rw [if_neg e₂] at h₂
        exact a.apart k₁ k₂ h h₁ h₂
  distinct k' := by
    by_cases hk : k' = k
    · rw [if_pos hk]
      exact List.nodup_nil
    · rw [if_neg hk]
      exact a.distinct k'
  given h hh := by
    rcases List.mem_append.mp hh with hnew | hold
    · exact (a.known k h hnew).1
    · exact a.given h hold
  once := by
    refine List.nodup_append.mpr ⟨a.distinct k, a.once, ?_⟩
    intro h hnew _ hold same
    subst same
    exact (a.known k h hnew).2 hold
  settled h hh := by
    rcases a.settled h hh with hold | ⟨k', hk'⟩
    · exact Or.inl (List.mem_append_right _ hold)
    · by_cases hk : k' = k
      · subst hk
        exact Or.inl (List.mem_append_left _ hk')
      · exact Or.inr ⟨k', by rwa [if_neg hk]⟩

end Handles

end VmWatcher

import VmWatcher.Daemon.Push
import VmWatcher.Misc.Slots
import VmWatcher.Misc.Trace

/-!
# One push at a time

Whatever the order in which the tasks go on, the flag is set exactly while a task holds the
guard, at most one does, and the counters count how the tasks ended.
-/

namespace VmWatcher

open Slots

namespace Pushes

/-- The tasks that have counted an outcome. -/
def counted (s : Pushes) (outcome : PushOutcome) : ℕ :=
  s.tasks.countP fun phase => phase.outcome = some outcome

/-- How many tasks are counted to have ended so. -/
def noted (counters : PushCounters) : PushOutcome → ℕ
  | .succeeded => counters.successes
  | .failed => counters.failures
  | .skipped => counters.skipped
  | .cancelled => 0

/-- The flag and the counters tell of the tasks. -/
structure Ok (s : Pushes) : Prop where
  guarded : s.tasks.countP PushPhase.holdsGuard = s.counters.inflight.toNat
  counts : ∀ outcome ≠ .cancelled, noted s.counters outcome = s.counted outcome % 2 ^ 64

variable {s s' : Pushes} {counters counters' : PushCounters} {phase phase' : PushPhase} {ok : Bool}

theorem Ok.start : Pushes.start.Ok := by
  refine ⟨rfl, fun outcome named => ?_⟩
  cases outcome with
  | succeeded | failed | skipped => rfl
  | cancelled => exact absurd rfl named

/-- An access changes the flag as it changes who holds the guard. -/
theorem proceed_guard (h : proceed counters ok phase = some (counters', phase'))
    (guarded : phase.holdsGuard = true → counters.inflight = true) :
    counters'.inflight.toNat + phase.holdsGuard.toNat =
      counters.inflight.toNat + phase'.holdsGuard.toNat := by
  cases phase with
  | spawned =>
    obtain ⟨rfl, rfl⟩ := Prod.mk.inj (Option.some.inj h)
    cases hflag : counters.inflight <;> simp [PushPhase.holdsGuard]
  | refused =>
    obtain ⟨rfl, rfl⟩ := Prod.mk.inj (Option.some.inj h)
    rfl
  | sending =>
    obtain ⟨rfl, rfl⟩ := Prod.mk.inj (Option.some.inj h)
    rfl
  | answered ok' =>
    obtain ⟨rfl, rfl⟩ := Prod.mk.inj (Option.some.inj h)
    cases ok' <;> rfl
  | releasing outcome =>
    obtain ⟨rfl, rfl⟩ := Prod.mk.inj (Option.some.inj h)
    simp [guarded rfl, PushPhase.holdsGuard]
  | ended outcome => cases h

/-- An access counts the outcome of its task when the task first has one. -/
theorem proceed_counts (h : proceed counters ok phase = some (counters', phase'))
    {outcome : PushOutcome} (named : outcome ≠ .cancelled) {n : ℕ}
    (before : noted counters outcome = n % 2 ^ 64) :
    ∃ n', noted counters' outcome = n' % 2 ^ 64 ∧
      n' + (decide (phase.outcome = some outcome)).toNat =
        n + (decide (phase'.outcome = some outcome)).toNat := by
  have counted (own : PushOutcome) : noted (counters.note own) outcome =
      (n + (decide (some own = some outcome)).toNat) % 2 ^ 64 := by
    cases own <;> cases outcome <;> simp_all [noted, PushCounters.note, u64Add]
  cases phase with
  | spawned =>
    obtain ⟨rfl, rfl⟩ := Prod.mk.inj (Option.some.inj h)
    refine ⟨n, ?_, ?_⟩
    · rw [← before]
      cases outcome <;> rfl
    · cases counters.inflight <;> rfl
  | refused =>
    obtain ⟨rfl, rfl⟩ := Prod.mk.inj (Option.some.inj h)
    exact ⟨_, counted .skipped, rfl⟩
  | sending =>
    obtain ⟨rfl, rfl⟩ := Prod.mk.inj (Option.some.inj h)
    exact ⟨n, before, rfl⟩
  | answered ok' =>
    obtain ⟨rfl, rfl⟩ := Prod.mk.inj (Option.some.inj h)
    exact ⟨_, counted _, rfl⟩
  | releasing own =>
    obtain ⟨rfl, rfl⟩ := Prod.mk.inj (Option.some.inj h)
    refine ⟨n, ?_, rfl⟩
    rw [← before]
    cases outcome <;> rfl
  | ended own => cases h

/-- A task that holds the guard has set the flag. -/
theorem Ok.inflight (h : s.Ok) {i : ℕ} (hi : s.tasks[i]? = some phase)
    (holds : phase.holdsGuard = true) : s.counters.inflight = true := by
  have := countP_pos hi holds
  rw [h.guarded] at this
  cases hflag : s.counters.inflight with
  | true => rfl
  | false => simp [hflag] at this

theorem Ok.step (h : s.Ok) {event : PushEvent} (hstep : s.step event = some s') : s'.Ok := by
  cases event with
  | spawn =>
    obtain rfl := Option.some.inj hstep
    obtain ⟨guarded, counts⟩ := h
    refine ⟨?_, fun outcome named => ?_⟩
    · simpa [PushPhase.holdsGuard] using guarded
    · simpa [counted, PushPhase.outcome] using counts outcome named
  | proceed i ok =>
    simp only [Pushes.step, Option.bind_eq_bind, Option.bind_eq_some_iff, Prod.exists] at hstep
    obtain ⟨phase, hi, counters', phase', hproceed, hs'⟩ := hstep
    obtain rfl := Option.some.inj hs'
    refine ⟨?_, fun outcome named => ?_⟩
    · have guard := proceed_guard hproceed (h.inflight hi)
      have set := countP_set (p := PushPhase.holdsGuard) hi phase'
      have before := h.guarded
      dsimp only
      omega
    · obtain ⟨n, after, moved⟩ := proceed_counts hproceed named (h.counts outcome named)
      have set := countP_set (p := fun t => decide (t.outcome = some outcome)) hi phase'
      have same : counted ⟨counters', s.tasks.set i phase'⟩ outcome = n := by
        simp only [counted] at moved ⊢
        omega
      rw [same, ← after]
  | cancel i =>
    simp only [Pushes.step, Option.bind_eq_bind, Option.bind_eq_some_iff] at hstep
    obtain ⟨phase, hi, hstep⟩ := hstep
    split at hstep
    · rename_i hphase
      subst hphase
      obtain rfl := Option.some.inj hstep
      -- the guard is dropped later, and nothing is counted
      have keeps (p : PushPhase → Bool) (same : p .sending = p (.releasing .cancelled)) :
          (s.tasks.set i (.releasing .cancelled)).countP p = s.tasks.countP p := by
        have set := countP_set (p := p) hi (.releasing .cancelled)
        rw [same] at set
        omega
      refine ⟨(keeps _ rfl).trans h.guarded, fun outcome named => ?_⟩
      have still : counted ⟨s.counters, s.tasks.set i (.releasing .cancelled)⟩ outcome =
          s.counted outcome := keeps _ (by cases outcome <;> first | rfl | exact absurd rfl named)
      rw [still]
      exact h.counts outcome named
    · cases hstep

/-- A run of events. -/
def run (events : List PushEvent) : Option Pushes := events.foldlM step start

theorem run_ok {events : List PushEvent} (h : run events = some s) : s.Ok :=
  foldlM_keeps (fun _ _ _ ok hstep => ok.step hstep) .start h

/-- A task holds the guard. -/
def Holds (s : Pushes) (i : ℕ) : Prop :=
  ∃ phase, s.tasks[i]? = some phase ∧ phase.holdsGuard = true

/-- The flag tells whether a task holds the guard. -/
theorem Ok.inflight_iff (h : s.Ok) : s.counters.inflight = true ↔ ∃ i, s.Holds i := by
  constructor
  · intro hflag
    have held : 0 < s.tasks.countP PushPhase.holdsGuard := by
      rw [h.guarded, hflag]
      exact Nat.one_pos
    obtain ⟨phase, hphase, holds⟩ := List.countP_pos_iff.mp held
    obtain ⟨i, hi⟩ := List.getElem?_of_mem hphase
    exact ⟨i, phase, hi, holds⟩
  · intro held
    obtain ⟨i, phase, hi, holds⟩ := held
    exact h.inflight hi holds

theorem Ok.single (h : s.Ok) {i j : ℕ} (hi : s.Holds i) (hj : s.Holds j) : i = j := by
  obtain ⟨phase, hi, holds⟩ := hi
  obtain ⟨phase', hj, holds'⟩ := hj
  refine eq_of_countP_le_one ?_ hi hj holds holds'
  rw [h.guarded]
  exact Bool.toNat_le _

/-- A task is turned away if another one holds the guard. -/
theorem Ok.refused_iff (h : s.Ok) {i : ℕ} (hi : s.tasks[i]? = some .spawned)
    (hstep : s.step (.proceed i ok) = some s') :
    s'.tasks[i]? = some .refused ↔ ∃ j, j ≠ i ∧ s.Holds j := by
  have within : i < s.tasks.length := (List.getElem?_eq_some_iff.mp hi).1
  have turned : s'.tasks[i]? = some .refused ↔ s.counters.inflight = true := by
    simp only [Pushes.step, hi, proceed, Option.bind_eq_bind, Option.bind_some, Option.pure_def,
      Option.some.injEq] at hstep
    subst hstep
    simp [within]
  rw [turned, h.inflight_iff]
  constructor
  · intro held
    obtain ⟨j, phase, hj, holds⟩ := held
    refine ⟨j, fun same => ?_, phase, hj, holds⟩
    subst same
    obtain rfl := Option.some.inj (hi.symm.trans hj)
    cases holds
  · intro held
    obtain ⟨j, -, holds⟩ := held
    exact ⟨j, holds⟩

theorem step_proceed {i : ℕ} (hi : s.tasks[i]? = some phase)
    (h : proceed s.counters ok phase = some (counters', phase')) :
    s.step (.proceed i ok) = some ⟨counters', s.tasks.set i phase'⟩ ∧
      (s.tasks.set i phase')[i]? = some phase' := by
  have within : i < s.tasks.length := (List.getElem?_eq_some_iff.mp hi).1
  exact ⟨by simp [Pushes.step, hi, h], by simp [within]⟩

/-- The task that holds the guard needs three accesses at most to drop it, all its own, and
however its request ends. -/
theorem Holds.frees {i : ℕ} (h : s.Holds i) (ok : Bool) :
    ∃ n ≤ 3, ∃ s' : Pushes, (List.replicate n (.proceed i ok)).foldlM Pushes.step s = some s' ∧
      s'.counters.inflight = false := by
  obtain ⟨phase, hi, holds⟩ := h
  have released {s : Pushes} {outcome : PushOutcome}
      (hi : s.tasks[i]? = some (.releasing outcome)) : ∃ s',
        (List.replicate 1 (.proceed i ok)).foldlM Pushes.step s = some s' ∧
          s'.counters.inflight = false := by
    obtain ⟨first, -⟩ := step_proceed hi rfl
    exact ⟨_, by rw [List.replicate_succ, List.foldlM_cons, first]; rfl, rfl⟩
  have counted {s : Pushes} {answer : Bool} (hi : s.tasks[i]? = some (.answered answer)) : ∃ s',
      (List.replicate 2 (.proceed i ok)).foldlM Pushes.step s = some s' ∧
        s'.counters.inflight = false := by
    obtain ⟨first, next⟩ := step_proceed hi rfl
    obtain ⟨s', rest, free⟩ := released (s := ⟨_, _⟩) next
    exact ⟨s', by rw [List.replicate_succ, List.foldlM_cons, first]; exact rest, free⟩
  cases phase with
  | spawned => cases holds
  | refused => cases holds
  | ended outcome => cases holds
  | sending =>
    obtain ⟨first, next⟩ := step_proceed hi rfl
    obtain ⟨s', rest, free⟩ := counted (s := ⟨_, _⟩) next
    exact ⟨3, Nat.le_refl 3, s', by
      rw [List.replicate_succ, List.foldlM_cons, first]; exact rest, free⟩
  | answered answer =>
    obtain ⟨s', run, free⟩ := counted hi
    exact ⟨2, by omega, s', run, free⟩
  | releasing outcome =>
    obtain ⟨s', run, free⟩ := released hi
    exact ⟨1, by omega, s', run, free⟩

/-- In every run one push at most is under way, and the flag tells whether one is. The
counters count how the tasks ended, a task is turned away exactly if another one holds the
guard, and from wherever a push is under way its task alone can end it. -/
theorem single_flight {events : List PushEvent} (h : run events = some s) :
    (s.counters.inflight = true ↔ ∃ i, s.Holds i) ∧
    (∀ i j, s.Holds i → s.Holds j → i = j) ∧
    s.counters.successes = s.counted .succeeded % 2 ^ 64 ∧
    s.counters.failures = s.counted .failed % 2 ^ 64 ∧
    s.counters.skipped = s.counted .skipped % 2 ^ 64 ∧
    (∀ i ok s', s.tasks[i]? = some .spawned → s.step (.proceed i ok) = some s' →
      (s'.tasks[i]? = some .refused ↔ ∃ j, j ≠ i ∧ s.Holds j)) ∧
    ∀ i, s.Holds i → ∀ ok, ∃ n ≤ 3, ∃ s' : Pushes,
      (List.replicate n (.proceed i ok)).foldlM step s = some s' ∧
        s'.counters.inflight = false := by
  have ok := run_ok h
  exact ⟨ok.inflight_iff, fun _ _ => ok.single, ok.counts .succeeded nofun,
    ok.counts .failed nofun, ok.counts .skipped nofun, fun _ _ _ => ok.refused_iff,
    fun _ held => held.frees⟩

/-- A second push while the first one is under way, whose task is then cancelled: it drops
the guard in one access of its own. -/
theorem single_flight_overlapping : ∃ s : Pushes,
    run [.spawn, .proceed 0 true, .spawn, .proceed 1 true, .proceed 1 true, .cancel 0] = some s ∧
    s.counters.inflight = true ∧ s.counters.skipped = 1 ∧
    ∃ n s', (List.replicate n (.proceed 0 false)).foldlM step s = some s' ∧
      s'.counters.inflight = false := by
  have ran : run [.spawn, .proceed 0 true, .spawn, .proceed 1 true, .proceed 1 true, .cancel 0] =
      some ⟨{ inflight := true, skipped := 1 }, [.releasing .cancelled, .ended .skipped]⟩ := by decide
  obtain ⟨flag, -, -, -, skipped, -, frees⟩ := single_flight ran
  obtain ⟨n, -, s', freed, free⟩ := frees 0 ⟨_, rfl, rfl⟩ false
  exact ⟨_, ran, flag.mpr ⟨0, _, rfl, rfl⟩, skipped, n, s', freed, free⟩

end Pushes

end VmWatcher

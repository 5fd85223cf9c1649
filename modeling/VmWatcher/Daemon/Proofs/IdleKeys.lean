import VmWatcher.Daemon.Collector
import VmWatcher.Misc.Streak

/-!
# Idle eviction

A key is reported as stale exactly when it was seen unchanged in each of the latest 300
polls. What a key is compared with, its record, is defined on the history of polls
(`recorded`); the samples the collector carries forward are that record, and the count
its tracker keeps of a key is the length of the key's streak of unchanged polls.
-/

namespace VmWatcher

/-- What one poll read of one map. -/
structure Reading (K V : Type) where
  cur : List (K × V)
  incomplete : Bool

namespace Reading

variable {K V : Type} [DecidableEq K]

/-- The value last recorded for a key, the latest poll first: a poll that misses the key
keeps its record if the poll was incomplete, and forgets it otherwise. -/
def recorded (k : K) : List (Reading K V) → Option V
  | [] => none
  | r :: before =>
    match r.cur.lookup k with
    | some v => some v
    | none => if r.incomplete then recorded k before else none

/-- The key was present in the poll, with the value last recorded for it before. -/
def Unchanged (k : K) (before : List (Reading K V)) (r : Reading K V) : Prop :=
  ∃ v, r.cur.lookup k = some v ∧ recorded k before = some v

variable [DecidableEq V]

instance (k : K) (before : List (Reading K V)) (r : Reading K V) :
    Decidable (Unchanged k before r) :=
  decidable_of_iff ((r.cur.lookup k).isSome ∧ r.cur.lookup k = recorded k before) <| by
    unfold Unchanged
    constructor
    · intro h
      obtain ⟨present, same⟩ := h
      obtain ⟨v, hv⟩ := Option.isSome_iff_exists.mp present
      exact ⟨v, hv, same ▸ hv⟩
    · intro h
      obtain ⟨v, hv, same⟩ := h
      exact ⟨Option.isSome_iff_exists.mpr ⟨v, hv⟩, hv.trans same.symm⟩

omit [DecidableEq V] in
/-- A poll in which a key is unchanged leaves its record as it was. -/
theorem Unchanged.recorded_eq {k : K} {before : List (Reading K V)} {r : Reading K V}
    (h : Unchanged k before r) : recorded k (r :: before) = recorded k before := by
  obtain ⟨v, hv, same⟩ := h
  rw [recorded, hv, same]

end Reading

open Reading

section Tracker

variable {K V : Type} [DecidableEq K] [DecidableEq V]

omit [DecidableEq V] in
theorem mem_keys_iff {cur : List (K × V)} {k : K} :
    k ∈ cur.map Prod.fst ↔ (cur.lookup k).isSome := by
  induction cur with
  | nil => simp
  | cons entry cur ih =>
    by_cases h : k = entry.1
    · simp [h]
    · simp [h, ih]

/-- The samples carried forward are the records, and the counts the streaks. -/
structure Tracks (t : IdleTracker K) (prev : Table K V) (log : List (Reading K V)) : Prop where
  prev : ∀ k, prev k = recorded k log
  counts : ∀ k, (t.counts k).getD 0 = streak (Unchanged k) log

variable {t : IdleTracker K} {prev : Table K V} {log : List (Reading K V)}

theorem tracks_nil : Tracks ({} : IdleTracker K) (Table.empty : Table K V) [] :=
  ⟨fun _ => rfl, fun _ => rfl⟩

/-- A present key either has changed or is unchanged. -/
theorem Tracks.unchanged_iff (h : Tracks t prev log) (r : Reading K V) (k : K) :
    Unchanged k log r ↔ k ∈ r.cur.map Prod.fst ∧ Collector.changed r.cur prev k = false := by
  rw [mem_keys_iff, Collector.changed, h.prev k, Unchanged]
  cases r.cur.lookup k with
  | none => simp
  | some v =>
    cases recorded k log with
    | none => simp
    | some w => simp

/-- What the tracker does with one poll, for one key. -/
theorem Tracks.idle (h : Tracks t prev log) (r : Reading K V) (k : K) :
    (if k ∈ r.cur.map Prod.fst then
      (if Collector.changed r.cur prev k then 0 else (t.counts k).getD 0 + 1) else 0) =
      streak (Unchanged k) (r :: log) := by
  have unchanged := h.unchanged_iff r k
  rw [streak, h.counts k]
  by_cases present : k ∈ r.cur.map Prod.fst
  · cases moved : Collector.changed r.cur prev k with
    | false => simp [unchanged, present, moved]
    | true => simp [unchanged, present, moved]
  · simp [unchanged, present]

theorem Tracks.step (h : Tracks t prev log) (r : Reading K V) :
    Tracks (t.observe (r.cur.map Prod.fst) (Collector.changed r.cur prev)).2
      (Collector.carryForward r.cur prev r.incomplete) (r :: log) := by
  constructor
  · intro k
    have prev := h.prev k
    cases hl : r.cur.lookup k <;> simp [Collector.carryForward, recorded, hl, prev]
  · intro k
    rw [← h.idle r k]
    by_cases present : k ∈ r.cur.map Prod.fst
    · simp [IdleTracker.observe, present]
    · simp [IdleTracker.observe, present]

/-- The keys a poll reports are those whose streak has reached the threshold. -/
theorem Tracks.mem_observe (h : Tracks t prev log) (r : Reading K V) (k : K) :
    k ∈ (t.observe (r.cur.map Prod.fst) (Collector.changed r.cur prev)).1 ↔
      Lasts (Unchanged k) idleEvictPolls (r :: log) := by
  have idle := h.idle r k
  rw [← le_streak_iff, ← idle, IdleTracker.observe, List.mem_filter, decide_eq_true_eq]
  by_cases present : k ∈ r.cur.map Prod.fst
  · rw [if_pos present]
    exact and_iff_right present
  · rw [if_neg present]
    exact iff_of_false (fun both => present both.1) (by decide)

omit [DecidableEq V] in
/-- A key whose record a poll changed has been no streak since before that poll. -/
theorem not_lasts_of_recorded_ne {k : K} {n : ℕ} {later before : List (Reading K V)}
    {r : Reading K V} (moved : recorded k (r :: before) ≠ recorded k before)
    (short : later.length < n) : ¬ Lasts (Unchanged k) n (later ++ r :: before) := by
  intro lasts
  exact moved (lasts.2 later r before rfl short).recorded_eq

end Tracker

namespace PollInputs

/-- What the poll read of `TRAFFIC` and of `TRAFFIC6`. -/
def traffic (inputs : PollInputs) : Reading TrafficKey TrafficValue :=
  ⟨inputs.cur, inputs.incomplete⟩

def traffic6 (inputs : PollInputs) : Reading UInt32 TrafficValue :=
  ⟨inputs.cur6, inputs.incomplete⟩

end PollInputs

namespace Collector

/-- The collector after these polls, the latest first, each with its clock reading. -/
def after : List (PollInputs × ℕ) → Collector
  | [] => new
  | (inputs, now) :: before => ((after before).poll inputs now).1

/-- The readings of the two traffic maps in these polls. -/
def readings (polls : List (PollInputs × ℕ)) : List (Reading TrafficKey TrafficValue) :=
  polls.map fun p => p.1.traffic

def readings6 (polls : List (PollInputs × ℕ)) : List (Reading UInt32 TrafficValue) :=
  polls.map fun p => p.1.traffic6

theorem tracks_after (polls : List (PollInputs × ℕ)) :
    Tracks (after polls).idle4 (after polls).prev (readings polls) ∧
      Tracks (after polls).idle6 (after polls).prev6 (readings6 polls) := by
  induction polls with
  | nil => exact ⟨tracks_nil, tracks_nil⟩
  | cons poll before ih => exact ⟨ih.1.step poll.1.traffic, ih.2.step poll.1.traffic6⟩

/-- Idle eviction is exact: after any polls, a poll reports the keys that were present and
equal to their record in each of the latest 300 polls, itself included, and so no key
whose record changed in one of them. No count exceeds the number of polls. -/
theorem idle_eviction_exact (before : List (PollInputs × ℕ)) (inputs : PollInputs) (now : ℕ) :
    let polls := (inputs, now) :: before
    let result := ((after before).poll inputs now).2
    (∀ k, k ∈ result.staleTraffic ↔ Lasts (Unchanged k) 300 (readings polls)) ∧
      (∀ k, k ∈ result.staleTraffic6 ↔ Lasts (Unchanged k) 300 (readings6 polls)) ∧
      (∀ k later r earlier, readings polls = later ++ r :: earlier → later.length < 300 →
        recorded k (r :: earlier) ≠ recorded k earlier → k ∉ result.staleTraffic) ∧
      (∀ k later r earlier, readings6 polls = later ++ r :: earlier → later.length < 300 →
        recorded k (r :: earlier) ≠ recorded k earlier → k ∉ result.staleTraffic6) ∧
      (∀ k, ((after polls).idle4.counts k).getD 0 ≤ polls.length) ∧
      ∀ k, ((after polls).idle6.counts k).getD 0 ≤ polls.length := by
  intro polls result
  obtain ⟨tracks, tracks6⟩ := tracks_after before
  obtain ⟨next, next6⟩ := tracks_after polls
  have stale : ∀ k, k ∈ result.staleTraffic ↔ Lasts (Unchanged k) 300 (readings polls) :=
    tracks.mem_observe inputs.traffic
  have stale6 : ∀ k, k ∈ result.staleTraffic6 ↔ Lasts (Unchanged k) 300 (readings6 polls) :=
    tracks6.mem_observe inputs.traffic6
  refine ⟨stale, stale6, ?_, ?_, ?_, ?_⟩
  · intro k later r earlier split short moved reported
    have lasts := (stale k).mp reported
    rw [split] at lasts
    exact not_lasts_of_recorded_ne moved short lasts
  · intro k later r earlier split short moved reported
    have lasts := (stale6 k).mp reported
    rw [split] at lasts
    exact not_lasts_of_recorded_ne moved short lasts
  · intro k
    rw [next.counts k]
    exact streak_le_length.trans (List.length_map _).le
  · intro k
    rw [next6.counts k]
    exact streak_le_length.trans (List.length_map _).le

end Collector

end VmWatcher

import VmWatcher.Common

/-!
# The metrics push (`vm-bandwidth/src/daemon.rs`)

Every push runs in a task of its own, so pushes take turns between any two accesses to the
counters they share. A task that is cancelled or panics while its request is under way
still drops its guard.
-/

namespace VmWatcher

/-- `PushCounters`: the single-flight flag and the outcome counters, which wrap around. -/
structure PushCounters where
  inflight : Bool := false
  successes : ℕ := 0
  failures : ℕ := 0
  skipped : ℕ := 0
  deriving DecidableEq, Repr

inductive PushOutcome where
  | succeeded
  | failed
  | skipped
  | cancelled
  deriving DecidableEq, Repr

namespace PushCounters

/-- `note_success`, `note_failure` and the count of a skip. -/
def note (counters : PushCounters) : PushOutcome → PushCounters
  | .succeeded => { counters with successes := u64Add counters.successes 1 }
  | .failed => { counters with failures := u64Add counters.failures 1 }
  | .skipped => { counters with skipped := u64Add counters.skipped 1 }
  | .cancelled => counters

end PushCounters

/-- Where a task is in `run_metrics_push`, between its accesses to the counters. -/
inductive PushPhase where
  /-- Before it swaps the flag in `try_start`. -/
  | spawned
  /-- The flag was set: the skip is not counted yet. -/
  | refused
  /-- It holds the guard, and its request is under way. -/
  | sending
  /-- The request has returned, and the outcome is not counted yet. -/
  | answered (ok : Bool)
  /-- It is about to drop the guard. -/
  | releasing (outcome : PushOutcome)
  | ended (outcome : PushOutcome)
  deriving DecidableEq, Repr

namespace PushPhase

/-- The task holds a `PushGuard`. -/
def holdsGuard : PushPhase → Bool
  | sending | answered _ | releasing _ => true
  | _ => false

/-- The outcome the task has counted. -/
def outcome : PushPhase → Option PushOutcome
  | releasing outcome | ended outcome => some outcome
  | _ => none

end PushPhase

/-- The shared counters and the tasks, in the order they were spawned. -/
structure Pushes where
  counters : PushCounters
  tasks : List PushPhase
  deriving DecidableEq, Repr

inductive PushEvent where
  /-- `push_metrics` spawns a task. -/
  | spawn
  /-- The task goes on to its next access; `ok` tells how its request ends. -/
  | proceed (task : ℕ) (ok : Bool)
  /-- The task is cancelled while its request is under way. -/
  | cancel (task : ℕ)

namespace Pushes

def start : Pushes := ⟨{}, []⟩

/-- The next access of a task in `run_metrics_push`. -/
def proceed (counters : PushCounters) (ok : Bool) : PushPhase → Option (PushCounters × PushPhase)
  | .spawned =>
    some ({ counters with inflight := true }, if counters.inflight then .refused else .sending)
  | .refused => some (counters.note .skipped, .ended .skipped)
  | .sending => some (counters, .answered ok)
  | .answered ok =>
    let outcome := if ok then .succeeded else .failed
    some (counters.note outcome, .releasing outcome)
  | .releasing outcome => some ({ counters with inflight := false }, .ended outcome)
  | .ended _ => none

/-- One event. -/
def step (s : Pushes) : PushEvent → Option Pushes
  | .spawn => some { s with tasks := s.tasks ++ [.spawned] }
  | .proceed task ok => do
    let phase ← s.tasks[task]?
    let (counters, phase) ← proceed s.counters ok phase
    return ⟨counters, s.tasks.set task phase⟩
  | .cancel task => do
    let phase ← s.tasks[task]?
    if phase = .sending then return { s with tasks := s.tasks.set task (.releasing .cancelled) }
    else none

end Pushes

end VmWatcher

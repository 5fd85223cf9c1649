import VmWatcher.Core.Config
import VmWatcher.Ebpf.Policers

/-!
# The timers of the engine loop (`vm-bandwidth/src/daemon.rs`)

Instants and periods are nanoseconds.
-/

namespace VmWatcher

/-- The timers of the engine loop: collect, scan for TAPs and push metrics. -/
inductive Timer where
  | collect
  | scan
  | push
  deriving DecidableEq, Repr

/-- `TimerIntervals::of`. -/
def timerInterval (cfg : ValidatedConfig) : Timer → ℕ
  | .collect => max cfg.refreshIntervalMs 1 * nsPerMs
  | .scan => max cfg.interfaceScanIntervalSecs 1 * nsPerSec
  | .push => max cfg.metricsPushIntervalSecs 5 * nsPerSec

/-- `next_deadline`: the deadline after `prev`, or a period from now when that has already
passed. -/
def nextDeadline (prev period now : ℕ) : ℕ :=
  if prev + period > now then prev + period else now + period

/-- `rescheduled`: a pending deadline is only ever pulled in. -/
def rescheduled (current period now : ℕ) : ℕ := min current (now + period)

section NextDeadline

variable {prev period now now' : ℕ}

theorem add_le_nextDeadline : prev + period ≤ nextDeadline prev period now := by
  unfold nextDeadline
  split <;> omega

theorem le_nextDeadline : now ≤ nextDeadline prev period now := by
  unfold nextDeadline
  split <;> omega

theorem nextDeadline_mono (h : now ≤ now') :
    nextDeadline prev period now ≤ nextDeadline prev period now' := by
  unfold nextDeadline
  split <;> split <;> omega

/-- A loop that is less than a period behind keeps its cadence. -/
theorem nextDeadline_of_prompt (h : now < prev + period) :
    nextDeadline prev period now = prev + period := if_pos h

end NextDeadline

/-! ### Deadlines as instants -/

/-- The end of the instants: on Linux their seconds are a signed 64-bit integer. -/
def instantEnd : ℕ := 9223372036854775808 * nsPerSec

/-- `Instant + Duration`, which panics outside that range. -/
def instantAdd (t period : ℕ) : Option ℕ :=
  if t + period < instantEnd then some (t + period) else none

/-- `next_deadline` on instants. -/
def nextDeadlineInstant (prev period now : ℕ) : Option ℕ := do
  let next ← instantAdd prev period
  if next > now then return next else instantAdd now period

/-- `rescheduled` on instants. -/
def rescheduledInstant (current period now : ℕ) : Option ℕ := do
  return min current (← instantAdd now period)

/-- The three deadlines, computed one after the other. -/
def deadlines (deadline : Timer → Option ℕ) : Option (Timer → ℕ) := do
  let collect ← deadline .collect
  let scan ← deadline .scan
  let push ← deadline .push
  return fun
    | .collect => collect
    | .scan => scan
    | .push => push

/-- The timers of the engine loop and the configuration in force. -/
structure EngineTimers where
  config : ValidatedConfig
  clock : ℕ
  next : Timer → ℕ

/-- What the loop does to its timers: a reload stores a configuration, the change is
noticed, or the handler of a timer ends. The last two read the clock. -/
inductive TimerEvent where
  | load (cfg : ValidatedConfig)
  | changed (now : ℕ)
  | fired (timer : Timer) (now : ℕ)

namespace EngineTimers

/-- The timers are set when the loop starts. -/
def start (cfg : ValidatedConfig) (now : ℕ) : Option EngineTimers := do
  return ⟨cfg, now, ← deadlines fun timer => instantAdd now (timerInterval cfg timer)⟩

/-- One branch of the loop; `none` is a panic. -/
def step (s : EngineTimers) : TimerEvent → Option EngineTimers
  | .load cfg => some { s with config := cfg }
  | .changed now => do
      let next ← deadlines fun timer =>
        rescheduledInstant (s.next timer) (timerInterval s.config timer) now
      return { s with clock := now, next }
  | .fired timer now => do
      let next ← nextDeadlineInstant (s.next timer) (timerInterval s.config timer) now
      return { s with clock := now, next := fun t => if t = timer then next else s.next t }

end EngineTimers

end VmWatcher

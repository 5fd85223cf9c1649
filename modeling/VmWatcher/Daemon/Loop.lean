import VmWatcher.Daemon.Collector
import VmWatcher.Daemon.Metering
import VmWatcher.Daemon.Timers
import VmWatcher.Ebpf.Classifier
import VmWatcher.Core.Proofs.Recovery
import Mathlib.Logic.Function.Basic

/-!
# The engine loop (`vm-bandwidth/src/daemon.rs`)

The loop runs one handler at a time: of a timer that is due, of a reload or of a change of
the configuration. Time passes at every point, inside a handler too, while the data path
counts and entries of `TRAFFIC` are deleted. The other counter maps may hold anything at a
poll. What a tick or a reload does to the limit maps is left out, but for the actions that
fail and are reverted.
-/

namespace VmWatcher

/-- What is known of a collection tick: when it ran, what the data path had counted for
each flow by then, and whether a reload ran it. -/
structure Stamp where
  time : ℕ
  bytes : FlowKey → ℕ
  byReload : Bool

/-- The handler that is running. -/
inductive Handler where
  | idle
  /-- A reload has switched the configuration and is about to collect. -/
  | reloaded
  /-- The work of a timer is done, its next deadline not set. -/
  | fired (timer : Timer)
  deriving DecidableEq

/-- The engine, its clock and the counters it polls. -/
structure Loop where
  clock : ℕ
  /-- When the engine was created; the limiter's seconds count from here. -/
  epoch : ℕ
  config : ValidatedConfig
  limiter : Limiter
  /-- The actions of the latest tick. -/
  pending : List LimitAction
  collector : Collector
  traffic : Ledger TrafficKey TrafficValue TrafficCounter
  next : Timer → ℕ
  /-- `config_rx` has a change that was not seen. -/
  changed : Bool
  handler : Handler
  /-- What the data path counted for each flow since the loop started. -/
  bytes : FlowKey → ℕ
  /-- The start of the loop. -/
  start : Stamp
  /-- The collection ticks, latest first. -/
  ticks : List Stamp

namespace Loop

/-- The refresh interval in nanoseconds. -/
def period (s : Loop) : ℕ := timerInterval s.config .collect

/-- The stamp of the tick before the latest `n`, or of the start. -/
def stampBack (s : Loop) (n : ℕ) : Stamp := (s.ticks ++ [s.start]).getD n s.start

/-! ### What happens around the handlers -/

def elapse (ns : ℕ) (s : Loop) : Loop := { s with clock := s.clock + ns }

/-- The data path counts a packet. -/
def count (key : TrafficKey) (isTx : Bool) (len : ℕ) (s : Loop) : Loop :=
  { s with
    traffic := s.traffic.grow key (((s.traffic.entries key).getD {}).count isTx len)
    bytes := fun flow =>
      s.bytes flow + if flow = (key.ipv4, directionOf isTx) then len else 0 }

/-- An entry is evicted, or pruned with its TAP. -/
def delete (key : TrafficKey) (s : Loop) : Loop := { s with traffic := s.traffic.delete key }

/-- A failed limit action is reverted. -/
def revert (action : LimitAction) (s : Loop) : Loop :=
  { s with limiter := s.limiter.revertFailedAction action }

/-! ### The handlers -/

/-- A poll reads the traffic entries as they are, and all of them. -/
structure Sees (s : Loop) (inputs : PollInputs) : Prop where
  traffic : Reads inputs.cur s.traffic.entries false
  complete : inputs.incomplete = false

/-- What the collector makes of a poll. -/
def polled (s : Loop) (inputs : PollInputs) : Collector × PollResult :=
  s.collector.poll inputs s.clock

/-- `now_secs`. -/
def nowSecs (s : Loop) : ℕ := (s.clock - s.epoch) / nsPerSec

variable (reaches : RollingWindow → ℕ → Bool)

/-- `collect_tick`, on its own deadline or at the end of a reload. -/
def collect (inputs : PollInputs) (ips : List UInt32) (byReload : Bool) (s : Loop) : Loop :=
  let polled := s.polled inputs
  let ticked := s.limiter.tick reaches s.nowSecs polled.2.totals ips
  { s with
    limiter := ticked.1
    pending := ticked.2
    collector := polled.1
    traffic := s.traffic.polled
    handler := if byReload then .idle else .fired .collect
    ticks := ⟨s.clock, s.bytes, byReload⟩ :: s.ticks }

/-- The end of a timer's handler. -/
def rearm (timer : Timer) (s : Loop) : Loop :=
  { s with
    next := Function.update s.next timer
      (nextDeadline (s.next timer) (timerInterval s.config timer) s.clock)
    handler := .idle }

/-- `reload` up to its `collect_tick`, when the new configuration is applied. -/
def commit (cfg : ValidatedConfig) (plan : ReloadPlan) (s : Loop) : Loop :=
  { s with
    config := cfg
    limiter := s.limiter.commitReload plan
    pending := []
    collector := s.collector.pruneIps (cfg.ranges.map ValidatedRange.inner)
    changed := true
    handler := .reloaded }

/-- The branch of `config_rx.changed()`. -/
def reschedule (s : Loop) : Loop :=
  { s with
    next := fun timer => rescheduled (s.next timer) (timerInterval s.config timer) s.clock
    changed := false }

/-- Whether a collection may run now. -/
def MayCollect (s : Loop) : Bool → Prop
  | true => s.handler = .reloaded
  | false => s.handler = .idle ∧ s.next .collect ≤ s.clock

/-- A collection tick. -/
inductive Ticks : Loop → Loop → Prop where
  | collect {s : Loop} {byReload : Bool} {inputs : PollInputs} {ips : List UInt32} :
      s.MayCollect byReload → s.Sees inputs →
      Visits ips (s.limiter.Evaluated (s.polled inputs).2.totals) →
      Ticks s (s.collect reaches inputs ips byReload)

/-- The loop is about to start: the first configuration is in force and nothing was
polled. The data path may have counted already. -/
structure Starts (accepts : ValidatedConfig → Prop) (s : Loop) : Prop where
  accepted : accepts s.config
  planned : ∃ now plan,
    (Limiter.new (s.config.refreshIntervalMs / 1000)).planReload s.config now [] = .ok plan ∧
      s.limiter = (Limiter.new (s.config.refreshIntervalMs / 1000)).commitReload plan
  pending : s.pending = []
  collector : s.collector = Collector.new
  since : ∀ k c, s.traffic.since k c = 0
  next : ∀ timer, s.next timer = s.clock + timerInterval s.config timer
  handler : s.handler = .idle
  bytes : ∀ flow, s.bytes flow = 0
  start : s.start = ⟨s.clock, s.bytes, false⟩
  ticks : s.ticks = []

/-- Any run of the loop. The collection handlers run in states that are `inTime`. -/
inductive Reachable (accepts : ValidatedConfig → Prop) (inTime : Loop → Prop) : Loop → Prop where
  | start {s : Loop} : s.Starts accepts → Reachable accepts inTime s
  | elapse {s : Loop} (ns : ℕ) : Reachable accepts inTime s → Reachable accepts inTime (s.elapse ns)
  | count {s : Loop} (key : TrafficKey) (isTx : Bool) (len : ℕ) :
      Reachable accepts inTime s → Reachable accepts inTime (s.count key isTx len)
  | delete {s : Loop} (key : TrafficKey) :
      Reachable accepts inTime s → Reachable accepts inTime (s.delete key)
  | revert {s : Loop} {action : LimitAction} : Reachable accepts inTime s →
      action ∈ s.pending → Reachable accepts inTime (s.revert action)
  | fire {s : Loop} {timer : Timer} : Reachable accepts inTime s → s.handler = .idle →
      timer ≠ .collect → s.next timer ≤ s.clock →
      Reachable accepts inTime { s with handler := .fired timer }
  | tick {s s' : Loop} : Reachable accepts inTime s → inTime s → s.Ticks reaches s' →
      Reachable accepts inTime s'
  | rearm {s : Loop} {timer : Timer} : Reachable accepts inTime s → s.handler = .fired timer →
      (timer = .collect → inTime s) → Reachable accepts inTime (s.rearm timer)
  | commit {s : Loop} {cfg : ValidatedConfig} {limited : List FlowKey} {plan : ReloadPlan} :
      Reachable accepts inTime s → s.handler = .idle → accepts cfg →
      cfg.refreshIntervalMs = s.config.refreshIntervalMs → Visits limited s.limiter.Limited →
      s.limiter.planReload cfg s.nowSecs limited = .ok plan →
      Reachable accepts inTime (s.commit cfg plan)
  | reschedule {s : Loop} : Reachable accepts inTime s → s.handler = .idle → s.changed = true →
      Reachable accepts inTime s.reschedule

end Loop

end VmWatcher

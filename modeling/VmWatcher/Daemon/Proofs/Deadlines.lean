import VmWatcher.Core.Proofs.Recovery
import VmWatcher.Daemon.Timers

/-!
# The deadlines of the engine loop stay within the instants

A timer fires once its deadline has passed, so a new deadline is at most a period ahead of
the clock. The parser bounds the periods of the collector. That of the metrics push it
bounds only while the push is enabled, but the loop sets the push timer all the same.
-/

namespace VmWatcher

open ExceptRules

/-- The latest clock reading that is considered: 2^62 seconds. -/
def clockEnd : ℕ := 4611686018427387904 * nsPerSec

/-! ### The periods of a parsed configuration -/

/-- What `parse` checks of the three periods. -/
structure ValidatedConfig.PeriodsChecked (cfg : ValidatedConfig) : Prop where
  collect : cfg.refreshIntervalMs ≤ maxCollectorIntervalSecs * 1000
  scan : cfg.interfaceScanIntervalSecs ≤ maxCollectorIntervalSecs
  push : cfg.metricsEnabled → cfg.metricsPushIntervalSecs ≤ 3600

theorem checkCollector_scan {collector : CollectorConfig} (h : checkCollector collector = .ok ()) :
    collector.interfaceScanIntervalSecs ≤ maxCollectorIntervalSecs := by
  by_cases refused : ¬(1000 ≤ collector.refreshIntervalMs ∧
      collector.refreshIntervalMs ≤ maxCollectorIntervalSecs * 1000) ∨
      collector.refreshIntervalMs % 1000 ≠ 0
  · simp only [checkCollector, refused, if_true] at h
    cases h
  · by_cases late : ¬(1 ≤ collector.interfaceScanIntervalSecs ∧
        collector.interfaceScanIntervalSecs ≤ maxCollectorIntervalSecs)
    · simp only [checkCollector, refused, if_false, late] at h
      cases h
    · rw [not_not] at late
      exact late.2

theorem checkMetrics_push {parseUrl : String → Except String Url} {metrics : MetricsConfig}
    {u : Unit} (h : checkMetrics parseUrl metrics = .ok u) (enabled : metrics.enabled) :
    metrics.pushIntervalSecs ≤ 3600 := by
  simp only [checkMetrics, enabled, if_true, bind_eq_ok] at h
  obtain ⟨_, -, h⟩ := h
  by_cases refused : ¬(5 ≤ metrics.pushIntervalSecs ∧ metrics.pushIntervalSecs ≤ 3600)
  · simp only [refused] at h
    cases h
  · rw [not_not] at refused
    exact refused.2

theorem parse_periodsChecked {parseUrl : String → Except String Url} {config : Config}
    {cfg : ValidatedConfig} (h : config.parse parseUrl = .ok cfg) : cfg.PeriodsChecked := by
  by_cases unnamed : (String.ofList (trim config.network.bridge.toList)).isEmpty
  · simp [Config.parse, unnamed] at h
  · simp only [Config.parse, unnamed, Bool.false_eq_true, if_false, bind_eq_ok, pure_eq_ok] at h
    obtain ⟨_, collector, sort, -, _, metrics, _, -, validated, -, rfl⟩ := h
    exact ⟨(ValidatedConfig.checkCollector_ok collector).1.2, checkCollector_scan collector,
      checkMetrics_push metrics⟩

/-! ### Adding to an instant -/

section Instants

variable {prev period now current : ℕ}

theorem instantAdd_eq_none (h : instantEnd ≤ now + period) : instantAdd now period = none :=
  if_neg (Nat.not_lt.mpr h)

/-- A period that is short of half the range can be added to any clock reading. -/
theorem instantAdd_of_short (hnow : now ≤ clockEnd) (short : period < clockEnd) :
    instantAdd now period = some (now + period) := by
  apply if_pos
  unfold clockEnd at hnow short
  unfold instantEnd
  omega

/-- Inside the range the deadline after `prev` is `nextDeadline`. -/
theorem nextDeadlineInstant_of_short (hprev : prev ≤ clockEnd) (hnow : now ≤ clockEnd)
    (short : period < clockEnd) :
    nextDeadlineInstant prev period now = some (nextDeadline prev period now) := by
  unfold nextDeadlineInstant nextDeadline
  rw [instantAdd_of_short hprev short, instantAdd_of_short hnow short]
  by_cases late : prev + period > now <;> simp [late]

theorem rescheduledInstant_of_short (hnow : now ≤ clockEnd) (short : period < clockEnd) :
    rescheduledInstant current period now = some (rescheduled current period now) := by
  unfold rescheduledInstant rescheduled
  rw [instantAdd_of_short hnow short]
  rfl

theorem deadlines_eq_some {deadline : Timer → Option ℕ} {f : Timer → ℕ}
    (h : ∀ timer, deadline timer = some (f timer)) : deadlines deadline = some f := by
  unfold deadlines
  simp only [h, Option.bind_eq_bind, Option.bind_some, Option.pure_def, Option.some.injEq]
  funext timer
  cases timer <;> rfl

/-- Without a push deadline there are no deadlines. -/
theorem deadlines_eq_none {deadline : Timer → Option ℕ} (h : deadline .push = none) :
    deadlines deadline = none := by
  unfold deadlines
  cases hcollect : deadline .collect with
  | none => rfl
  | some collect =>
    cases hscan : deadline .scan with
    | none => rfl
    | some scan => simp [h]

end Instants

/-! ### Runs of the loop -/

/-- A period of the configuration that is not short of half the range, if any, is the push
interval. -/
theorem ValidatedConfig.PeriodsChecked.short_iff {cfg : ValidatedConfig} (h : cfg.PeriodsChecked) :
    (∀ timer, timerInterval cfg timer < clockEnd) ↔
      cfg.metricsPushIntervalSecs < 4611686018427387904 := by
  have collect := h.collect
  have scan := h.scan
  unfold maxCollectorIntervalSecs at collect scan
  constructor
  · intro short
    have push := short .push
    simp only [timerInterval, clockEnd, nsPerSec] at push
    omega
  · intro push timer
    cases timer <;> simp only [timerInterval, clockEnd, nsPerSec, nsPerMs] <;> omega

namespace EngineTimers

variable (allowed : ValidatedConfig → Prop)

/-- What may happen to the timers: an allowed configuration is loaded, or the clock has
moved on, past the deadline of the timer that fires. -/
def Permitted (s : EngineTimers) : TimerEvent → Prop
  | .load cfg => allowed cfg
  | .changed now => s.clock ≤ now ∧ now ≤ clockEnd
  | .fired timer now => s.clock ≤ now ∧ now ≤ clockEnd ∧ s.next timer ≤ now

/-- The states of the loop that a run reaches with these configurations. -/
inductive Run : EngineTimers → Prop where
  | start {cfg : ValidatedConfig} {now : ℕ} {s : EngineTimers} : allowed cfg → now ≤ clockEnd →
      start cfg now = some s → Run s
  | step {s s' : EngineTimers} {e : TimerEvent} : Run s → s.Permitted allowed e →
      s.step e = some s' → Run s'

/-- No deadline that the loop computes leaves the range of the instants. -/
structure StaysInRange : Prop where
  start : ∀ cfg now, allowed cfg → now ≤ clockEnd → (EngineTimers.start cfg now).isSome
  step : ∀ s e, Run allowed s → s.Permitted allowed e → (s.step e).isSome

variable {allowed}

theorem start_config {cfg : ValidatedConfig} {now : ℕ} {s : EngineTimers}
    (h : EngineTimers.start cfg now = some s) : s.config = cfg := by
  obtain ⟨next, -, hs⟩ := Option.bind_eq_some_iff.mp h
  obtain rfl := Option.some.inj hs
  rfl

/-- The loop cannot start if the push deadline is out of range. -/
theorem start_overflows {cfg : ValidatedConfig} {now : ℕ}
    (h : instantEnd ≤ now + timerInterval cfg .push) : EngineTimers.start cfg now = none := by
  unfold EngineTimers.start
  rw [deadlines_eq_none (instantAdd_eq_none h)]
  rfl

/-- A change of the configuration cannot be handled if its push deadline is out of range. -/
theorem changed_overflows {s : EngineTimers} {now : ℕ}
    (h : instantEnd ≤ now + timerInterval s.config .push) : s.step (.changed now) = none := by
  have push : rescheduledInstant (s.next .push) (timerInterval s.config .push) now = none := by
    unfold rescheduledInstant
    rw [instantAdd_eq_none h]
    rfl
  unfold EngineTimers.step
  dsimp only
  rw [deadlines_eq_none push]
  rfl

/-- A step changes the configuration only by loading one. -/
theorem step_config {s s' : EngineTimers} {e : TimerEvent} (h : s.step e = some s')
    (permitted : s.Permitted allowed e) : s'.config = s.config ∨ allowed s'.config := by
  cases e with
  | load cfg =>
    obtain rfl := Option.some.inj h
    exact Or.inr permitted
  | changed now =>
    obtain ⟨next, -, hs⟩ := Option.bind_eq_some_iff.mp h
    obtain rfl := Option.some.inj hs
    exact Or.inl rfl
  | fired timer now =>
    obtain ⟨next, -, hs⟩ := Option.bind_eq_some_iff.mp h
    obtain rfl := Option.some.inj hs
    exact Or.inl rfl

theorem Run.config {s : EngineTimers} (h : Run allowed s) : allowed s.config := by
  induction h with
  | start hcfg _ hs =>
    rw [start_config hs]
    exact hcfg
  | step _ permitted hs ih =>
    rcases step_config hs permitted with same | loaded
    · rw [same]
      exact ih
    · exact loaded

theorem start_of_short {cfg : ValidatedConfig} {now : ℕ} (hnow : now ≤ clockEnd)
    (short : ∀ timer, timerInterval cfg timer < clockEnd) :
    EngineTimers.start cfg now = some ⟨cfg, now, fun timer => now + timerInterval cfg timer⟩ := by
  unfold EngineTimers.start
  rw [deadlines_eq_some fun timer => instantAdd_of_short hnow (short timer)]
  rfl

/-- With short periods every step is taken: a timer that fires has a deadline in the past. -/
theorem step_of_short {s : EngineTimers} {e : TimerEvent} (permitted : s.Permitted allowed e)
    (short : ∀ timer, timerInterval s.config timer < clockEnd) : (s.step e).isSome := by
  cases e with
  | load cfg => rfl
  | changed now =>
    unfold EngineTimers.step
    dsimp only
    rw [deadlines_eq_some fun timer => rescheduledInstant_of_short permitted.2 (short timer)]
    rfl
  | fired timer now =>
    obtain ⟨-, hnow, due⟩ := permitted
    unfold EngineTimers.step
    dsimp only
    rw [nextDeadlineInstant_of_short (due.trans hnow) hnow (short timer)]
    rfl

/-- The deadlines of the loop stay within the instants exactly when the push interval of
every configuration it may load, with the push enabled or not, is short of 2^62 seconds. -/
theorem stays_in_range_iff
    (parsed : ∀ cfg, allowed cfg → ∃ parseUrl config, Config.parse parseUrl config = .ok cfg) :
    StaysInRange allowed ↔ ∀ cfg, allowed cfg → cfg.metricsPushIntervalSecs < 4611686018427387904 := by
  have checked : ∀ cfg, allowed cfg → cfg.PeriodsChecked := by
    intro cfg hcfg
    obtain ⟨parseUrl, config, hparse⟩ := parsed cfg hcfg
    exact parse_periodsChecked hparse
  constructor
  · intro inRange cfg hcfg
    by_contra long
    have overflow : instantEnd ≤ clockEnd + timerInterval cfg .push := by
      simp only [timerInterval, clockEnd, instantEnd, nsPerSec]
      omega
    have started := inRange.start cfg clockEnd hcfg le_rfl
    rw [start_overflows overflow] at started
    cases started
  · intro push
    have short : ∀ cfg, allowed cfg → ∀ timer, timerInterval cfg timer < clockEnd :=
      fun cfg hcfg => (checked cfg hcfg).short_iff.mpr (push cfg hcfg)
    constructor
    · intro cfg now hcfg hnow
      rw [start_of_short hnow (short cfg hcfg)]
      rfl
    · intro s e run permitted
      exact step_of_short permitted (short s.config run.config)

theorem stays_in_range_oneAddress : StaysInRange (· = Limiter.oneAddress Limiter.receiveLimit) := by
  refine (stays_in_range_iff ?_).mpr ?_
  · intro cfg same
    subst same
    exact ⟨fun _ => .error "", Limiter.oneAddressFile (some Limiter.receiveLimitEntry), rfl⟩
  · intro cfg same
    subst same
    decide

/-! ### A push interval nobody checks -/

/-- The push is disabled, as it is by default, and its interval is the largest integer that
a document can hold. -/
def idlePushFile : Config :=
  { Limiter.oneAddressFile none with
    metrics := { pushIntervalSecs := 9223372036854775807 } }

def idlePush : ValidatedConfig :=
  { Limiter.oneAddress {} with metricsPushIntervalSecs := 9223372036854775807 }

theorem idlePush_overflows (now : ℕ) (h : nsPerSec ≤ now) :
    instantEnd ≤ now + timerInterval idlePush .push := by
  simp only [timerInterval, idlePush, instantEnd, nsPerSec] at h ⊢
  omega

/-- The loop a second after boot, when it has started without the file. -/
def startedTimers : EngineTimers :=
  ⟨Limiter.oneAddress {}, nsPerSec, fun timer => nsPerSec + timerInterval (Limiter.oneAddress {}) timer⟩

theorem startedTimers_reached {allowed : ValidatedConfig → Prop}
    (h : allowed (Limiter.oneAddress {})) : Run allowed startedTimers := by
  have parsed : (Limiter.oneAddressFile none).parse (fun _ => .error "") =
      .ok (Limiter.oneAddress {}) := rfl
  have hnow : nsPerSec ≤ clockEnd := by decide
  refine .start h hnow (start_of_short hnow ?_)
  exact (parse_periodsChecked parsed).short_iff.mpr (by decide)

/-- A second after boot the loop panics when it starts with the file, and when it notices
later that the file was loaded. -/
theorem idle_push_overflows :
    idlePushFile.parse (fun _ => .error "") = .ok idlePush ∧
      EngineTimers.start idlePush nsPerSec = none ∧
      ∃ s s', Run (fun cfg => cfg = Limiter.oneAddress {} ∨ cfg = idlePush) s ∧
        s.step (.load idlePush) = some s' ∧
        s'.Permitted (fun cfg => cfg = Limiter.oneAddress {} ∨ cfg = idlePush)
          (.changed (2 * nsPerSec)) ∧
        s'.step (.changed (2 * nsPerSec)) = none := by
  refine ⟨rfl, start_overflows (idlePush_overflows _ le_rfl), startedTimers,
    { startedTimers with config := idlePush }, startedTimers_reached (Or.inl rfl), rfl, ?_, ?_⟩
  · exact ⟨by decide, by decide⟩
  · exact changed_overflows (idlePush_overflows _ (by decide))

end EngineTimers

end VmWatcher

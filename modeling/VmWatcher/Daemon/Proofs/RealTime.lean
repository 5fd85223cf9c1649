import VmWatcher.Core.Proofs.Emitted
import VmWatcher.Core.Proofs.Measured
import VmWatcher.Daemon.Loop
import VmWatcher.Daemon.Proofs.Clock
import VmWatcher.Daemon.Proofs.Metering
import VmWatcher.Misc.Cadence

/-!
# What a full window says about real time

A window of `n` samples stands for `n` refresh intervals. When no collection is a whole
interval late its samples were taken within `n + 1` intervals, and they add up to no more
than the data path counted in that time, so a flow is only limited when its average demand
over the time really observed reached the trigger line (`limited_in_real_time`). The
average is a 64-bit float: what its rounding adds is less than a nanosecond, in a window
of at most `2 ^ 52` of them.
-/

namespace VmWatcher

namespace Loop

variable {reaches : RollingWindow → ℕ → Bool} {accepts : ValidatedConfig → Prop}
variable {inTime : Loop → Prop} {s s' : Loop}

/-! ### The time between ticks -/

/-- The pending collection is less than a whole refresh interval late, so `next_deadline`
will not drop a tick. -/
def InTime (s : Loop) : Prop := s.clock < s.next .collect + s.period

/-- The next collection deadline if it is kept. -/
def promised (s : Loop) : ℕ :=
  if s.handler = .fired .collect then s.next .collect + s.period else s.next .collect

theorem promised_of_ne (h : s.handler ≠ .fired .collect) : s.promised = s.next .collect := if_neg h

/-- No tick is missing. -/
structure OnTime (s : Loop) : Prop where
  past : ∀ x ∈ s.ticks ++ [s.start], x.time ≤ s.clock
  kept : Kept s.period s.promised s.start.time (s.ticks.map Stamp.time)

theorem Starts.onTime (h : s.Starts accepts) : s.OnTime := by
  have promised : s.promised = s.clock + s.period := by
    rw [promised_of_ne (by simp [h.handler]), h.next]
    rfl
  refine ⟨?_, ?_⟩
  · simp [h.ticks, h.start]
  · rw [h.ticks, promised, h.start]
    exact .begin

/-- The latest tick, or the start, was at most an interval before the pending deadline. -/
theorem OnTime.close (h : s.OnTime) : s.promised ≤ s.clock + s.period := by
  have ⟨x, hx⟩ : ∃ x, (s.ticks ++ [s.start])[0]? = some x := by
    cases s.ticks with
    | nil => exact ⟨_, rfl⟩
    | cons x _ => exact ⟨x, rfl⟩
  have kept := h.kept 0 x.time (by
    rw [← List.map_singleton (f := Stamp.time), ← List.map_append, List.getElem?_map, hx]
    rfl)
  have past := h.past x (List.mem_of_getElem? hx)
  omega

theorem OnTime.tick (h : s.OnTime) (ticks : s.Ticks reaches s') : s'.OnTime := by
  cases ticks with
  | @collect byReload inputs ips may _ _ =>
    refine ⟨?_, ?_⟩
    · intro x hx
      rcases List.mem_cons.mp hx with rfl | hx
      · exact le_rfl
      · exact h.past x hx
    · cases byReload with
      | true =>
        have reloaded : s.handler = .reloaded := may
        have before : s.promised = s.next .collect := promised_of_ne (by simp [reloaded])
        have after : (s.collect reaches inputs ips true).promised = s.promised :=
          (promised_of_ne (by simp [collect])).trans before.symm
        rw [after]
        exact h.kept.fire (Nat.le_add_right _ _) h.close
      | false =>
        have before : s.promised = s.next .collect := promised_of_ne (by simp [may.1])
        have after : (s.collect reaches inputs ips false).promised = s.promised + s.period := by
          rw [before]
          exact if_pos rfl
        rw [after]
        refine h.kept.fire le_rfl ?_
        rw [before]
        exact Nat.add_le_add_right may.2 _

theorem OnTime.rearm (h : s.OnTime) {timer : Timer} (fired : s.handler = .fired timer)
    (inTime : timer = .collect → s.InTime) : (s.rearm timer).OnTime where
  past := h.past
  kept := by
    have after : (s.rearm timer).promised = (s.rearm timer).next .collect :=
      promised_of_ne (by simp [Loop.rearm])
    have same : (s.rearm timer).next .collect = s.promised := by
      by_cases collect : timer = .collect
      · subst collect
        have kept : nextDeadline (s.next .collect) s.period s.clock = s.next .collect + s.period :=
          nextDeadline_of_prompt (inTime rfl)
        rw [promised, if_pos fired, ← kept]
        simp [Loop.rearm, Loop.period]
      · rw [promised_of_ne (by simpa [fired] using collect)]
        simp [Loop.rearm, Ne.symm collect]
    rw [after, same]
    exact h.kept

theorem OnTime.commit (h : s.OnTime) (idle : s.handler = .idle) {cfg : ValidatedConfig}
    (interval : cfg.refreshIntervalMs = s.config.refreshIntervalMs) (plan : ReloadPlan) :
    (s.commit cfg plan).OnTime where
  past := h.past
  kept := by
    have before : s.promised = s.next .collect := promised_of_ne (by simp [idle])
    have after : (s.commit cfg plan).promised = s.next .collect :=
      promised_of_ne (by simp [Loop.commit])
    have period : (s.commit cfg plan).period = s.period := by
      simp only [Loop.period, Loop.commit, timerInterval, interval]
    rw [after, ← before, period]
    exact h.kept

theorem OnTime.reschedule (h : s.OnTime) (idle : s.handler = .idle) : s.reschedule.OnTime where
  past := h.past
  kept := by
    have before : s.promised = s.next .collect := promised_of_ne (by simp [idle])
    have after : s.reschedule.promised = min (s.next .collect) (s.clock + s.period) :=
      promised_of_ne (by simp [Loop.reschedule, idle])
    refine h.kept.mono ?_
    rw [before, after]
    exact Nat.min_le_left _ _

theorem Reachable.onTime (run : Reachable reaches accepts InTime s) : s.OnTime := by
  induction run with
  | start starts => exact starts.onTime
  | elapse ns _ ih =>
    exact ⟨fun x hx => Nat.le_add_right_of_le (ih.past x hx), ih.kept⟩
  | count key isTx len _ ih => exact ⟨ih.past, ih.kept⟩
  | delete key _ ih => exact ⟨ih.past, ih.kept⟩
  | revert _ _ ih => exact ⟨ih.past, ih.kept⟩
  | @fire s timer _ idle other _ ih =>
    refine ⟨ih.past, ?_⟩
    have before : s.promised = s.next .collect := promised_of_ne (by simp [idle])
    have after : promised { s with handler := .fired timer } = s.next .collect :=
      promised_of_ne (by simpa using other)
    rw [after, ← before]
    exact ih.kept
  | tick _ _ ticks ih => exact ih.tick ticks
  | rearm _ fired inTime ih => exact ih.rearm fired inTime
  | commit _ idle _ interval _ _ ih => exact ih.commit idle interval _
  | reschedule _ idle _ ih => exact ih.reschedule idle

end Loop

/-! ### The log of every window -/

namespace Limiter

variable {reaches : RollingWindow → ℕ → Bool} {accepts : ValidatedConfig → Prop}
variable {l : Limiter} {holds holds' : FlowKey → List ℕ → Prop}

/-- Every window has a log that this holds of. -/
def Logged (l : Limiter) (holds : FlowKey → List ℕ → Prop) : Prop :=
  ∀ flow w, l.windows flow = some w → ∃ log, w.Logs log ∧ w.tickSecs = l.tickSecs ∧ holds flow log

/-- A tick adds its delta to a log, or starts an empty one. -/
theorem Logged.tick (logged : l.Logged holds) (hok : l.Ok) (positive : 0 < l.tickSecs) (now : ℕ)
    (totals : Table UInt32 IpTotals) {ips : List UInt32} (visits : Visits ips (l.Evaluated totals))
    (fresh : ∀ flow, holds flow []) (empty : ∀ flow, holds' flow [])
    (push : ∀ flow np log, l.dirPolicy flow = some np → holds flow log →
      holds' flow (log ++ [l.flowDelta totals flow])) :
    (l.tick reaches now totals ips).1.Logged holds' := by
  intro flow w' hw'
  obtain ⟨-, np, hp, evaluated⟩ := hok.tick_window now totals visits hw'
  obtain ⟨log, logs, secs, grown⟩ : ∃ log, (l.sampled totals flow np).Logs log ∧
      (l.sampled totals flow np).tickSecs = l.tickSecs ∧ holds' flow log := by
    cases hw : l.windows flow with
    | some w =>
      obtain ⟨log, logs, secs, before⟩ := logged flow w hw
      rw [sampled_of_some hw]
      exact ⟨_, logs.add _, secs, push flow np log hp before⟩
    | none =>
      rw [sampled_of_none hw]
      exact ⟨_, (RollingWindow.logs_new _ _).add _, Nat.max_eq_left positive,
        push flow np [] hp (fresh flow)⟩
  rw [(tick_sameIndex reaches now totals l ips).tickSecs]
  rcases evaluated with rfl | rfl
  · exact ⟨log, logs, secs, grown⟩
  · exact ⟨[], RollingWindow.logs_reset _, secs, empty flow⟩

theorem Logged.commitReload (logged : l.Logged holds) (positive : 0 < l.tickSecs)
    (plan : ReloadPlan) (empty : ∀ flow, holds flow []) : (l.commitReload plan).Logged holds := by
  intro flow w' hw'
  rw [(commitReload_index l plan).1]
  obtain ⟨-, w, hw, after⟩ := commitReload_window hw'
  obtain ⟨log, logs, secs, before⟩ := logged flow w hw
  by_cases restarts : l.restarts plan flow = true
  · rw [if_pos restarts] at after
    obtain ⟨emptied, hsecs⟩ := after
    refine ⟨[], emptied, ?_, empty flow⟩
    rcases hsecs with hsecs | hsecs
    · exact hsecs.trans secs
    · exact hsecs.trans (Nat.max_eq_left positive)
  · rw [if_neg restarts] at after
    subst after
    exact ⟨log, logs, secs, before⟩

end Limiter

/-! ### The bytes between ticks -/

theorem bytes_ipTotals (stats : IpStats) (isTx : Bool) :
    stats.ipTotals.bytes (directionOf isTx) = stats.traffic (byteCounter isTx) := by
  cases isTx <;> rfl

/-- What a poll passes on to the limiter. -/
theorem bytes_totals (s : Loop) (inputs : PollInputs) (ip : UInt32) (isTx : Bool) :
    (((s.polled inputs).2.totals ip).getD {}).bytes (directionOf isTx) =
      (((s.polled inputs).1.totals ip).getD {}).traffic (byteCounter isTx) := by
  show ((((s.polled inputs).1.totals ip).map IpStats.ipTotals).getD {}).bytes _ = _
  cases (s.polled inputs).1.totals ip with
  | none => cases isTx <;> rfl
  | some stats => exact bytes_ipTotals stats isTx

/-- Only the two directions have policies. -/
theorem EffectivePolicy.direction_of_dir {p : EffectivePolicy} {direction : UInt8} {np : DirPolicy}
    (h : p.dir direction = some np) : ∃ isTx, direction = directionOf isTx := by
  unfold EffectivePolicy.dir at h
  by_cases rx : direction = dirRx
  · exact ⟨false, rx⟩
  · by_cases tx : direction = dirTx
    · exact ⟨true, tx⟩
    · simp [rx, tx] at h

namespace Loop

variable {reaches : RollingWindow → ℕ → Bool} {accepts : ValidatedConfig → Prop}
variable {inTime : Loop → Prop} {s s' : Loop}

/-- The latest samples of a log add up to no more than was counted between as many ticks. -/
def Backed (s : Loop) (flow : FlowKey) (log : List ℕ) : Prop :=
  log.length ≤ s.ticks.length ∧ ∀ latest, latest <:+ log →
    latest.sum + (s.stampBack latest.length).bytes flow ≤ (s.stampBack 0).bytes flow

/-- What was sampled was counted. -/
structure Counted (s : Loop) : Prop where
  since : ∀ isTx ip (keys : List TrafficKey), keys.Nodup → (∀ k ∈ keys, k.ipv4 = ip) →
    s.traffic.sinceAll keys (byteCounter isTx) + (s.stampBack 0).bytes (ip, directionOf isTx) ≤
      s.bytes (ip, directionOf isTx)
  fits : s.collector.Fits
  primed : s.collector.primed = true → s.traffic.Within s.collector.prev
  unprimed : s.collector.primed = false → ∀ k, s.collector.prev k = none
  baseline : ∀ ip p, s.limiter.prevTotals ip = some p → (s.limiter.effectivePolicy ip).isSome ∧
    ∀ isTx, ((s.collector.totals ip).getD {}).traffic (byteCounter isTx) ≤
      p.bytes (directionOf isTx)
  windows : s.limiter.Logged s.Backed

theorem backed_nil (s : Loop) (flow : FlowKey) : s.Backed flow [] := by
  refine ⟨Nat.zero_le _, ?_⟩
  intro latest suffix
  obtain rfl := List.suffix_nil.mp suffix
  simp

theorem Starts.counted (h : s.Starts accepts) : s.Counted where
  since := by
    intro isTx ip keys _ _
    have none : s.traffic.sinceAll keys (byteCounter isTx) = 0 := by
      simp [Ledger.sinceAll, h.since]
    have start : s.stampBack 0 = ⟨s.clock, s.bytes, false⟩ := by
      rw [stampBack, h.ticks, h.start]
      rfl
    rw [none, start, Nat.zero_add]
  fits := by
    rw [h.collector]
    exact Collector.fits_new
  primed := by
    rw [h.collector]
    exact fun primed => Bool.noConfusion primed
  unprimed := by
    rw [h.collector]
    exact fun _ _ => rfl
  baseline := by
    obtain ⟨now, plan, -, limiter⟩ := h.planned
    intro ip p hp
    rw [limiter, Limiter.commitReload_prevTotals] at hp
    simp [Limiter.new, Table.retain] at hp
  windows := by
    obtain ⟨now, plan, -, limiter⟩ := h.planned
    have none : (Limiter.new (s.config.refreshIntervalMs / 1000)).Logged s.Backed :=
      fun _ _ held => absurd held.symm (Option.some_ne_none _)
    rw [limiter]
    exact none.commitReload (Nat.lt_of_lt_of_le Nat.zero_lt_one (Nat.le_max_right _ 1)) plan
      s.backed_nil

theorem gained_count (value : TrafficValue) (isTx counted : Bool) (len : ℕ) :
    Tally.get (value.count counted len) (byteCounter isTx) - Tally.get value (byteCounter isTx) ≤
      if isTx = counted then len else 0 := by
  have added : ∀ x, u64Add x len - x ≤ len := by
    intro x
    have := u64Add_le x len
    omega
  cases isTx <;> cases counted <;> simp [byteCounter, TrafficValue.count, Tally.get, added]

theorem Counted.count (h : s.Counted) (key : TrafficKey) (isTx : Bool) (len : ℕ) :
    (s.count key isTx len).Counted where
  since := by
    intro isTx' ip keys distinct own
    have before := h.since isTx' ip keys distinct own
    set value := ((s.traffic.entries key).getD {}).count isTx len with hvalue
    have gained : Tally.get value (byteCounter isTx') -
        Tally.of (s.traffic.entries key) (byteCounter isTx') ≤ if isTx' = isTx then len else 0 :=
      gained_count _ isTx' isTx len
    show (s.traffic.grow key value).sinceAll keys (byteCounter isTx') + _ ≤ s.bytes _ + _
    by_cases mem : key ∈ keys
    · have more := Ledger.sinceAll_grow_le (k := key) (v := value) (l := s.traffic)
        (c := byteCounter isTx') distinct
      replace more := more.trans (Nat.add_le_add_left gained _)
      have same : isTx' = isTx → (ip, directionOf isTx') = (key.ipv4, directionOf isTx) := by
        intro equal
        subst equal
        rw [own key mem]
      by_cases dir : isTx' = isTx
      · rw [if_pos dir] at more
        rw [if_pos (same dir)]
        exact (Nat.add_le_add_right more _).trans (by
          rw [Nat.add_right_comm]
          exact Nat.add_le_add_right before _)
      · rw [if_neg dir] at more
        exact (Nat.add_le_add_right more _).trans (Nat.le_add_right_of_le before)
    · rw [Ledger.sinceAll_grow_of_not_mem mem]
      exact Nat.le_add_right_of_le before
  fits := h.fits
  primed := fun primed => (h.primed primed).grow _ _
  unprimed := h.unprimed
  baseline := h.baseline
  windows := h.windows

theorem Counted.delete (h : s.Counted) (key : TrafficKey) : (s.delete key).Counted where
  since := by
    intro isTx ip keys distinct own
    have less := s.traffic.sinceAll_delete_le key keys (byteCounter isTx)
    exact (Nat.add_le_add_right less _).trans (h.since isTx ip keys distinct own)
  fits := h.fits
  primed := fun primed => (h.primed primed).delete key
  unprimed := h.unprimed
  baseline := h.baseline
  windows := h.windows

theorem Counted.revert (h : s.Counted) (action : LimitAction) : (s.revert action).Counted where
  since := h.since
  fits := h.fits
  primed := h.primed
  unprimed := h.unprimed
  baseline := by
    intro ip p hp
    rw [show (s.revert action).limiter.prevTotals = s.limiter.prevTotals from
      (Limiter.revertFailedAction_windows s.limiter action).2] at hp
    obtain ⟨policed, bound⟩ := h.baseline ip p hp
    have index := Limiter.revertFailedAction_sameIndex s.limiter action
    exact ⟨(index.effectivePolicy ip).symm ▸ policed, bound⟩
  windows := by
    intro flow w hw
    rw [show (s.revert action).limiter.windows = s.limiter.windows from
      (Limiter.revertFailedAction_windows s.limiter action).1] at hw
    obtain ⟨log, logs, secs, backed⟩ := h.windows flow w hw
    have index := Limiter.revertFailedAction_sameIndex s.limiter action
    exact ⟨log, logs, secs.trans index.tickSecs.symm, backed⟩

/-! ### A tick -/

/-- An entry gained no more on its sample than was counted into it since. -/
theorem Counted.gain_le (h : s.Counted) {inputs : PollInputs} (sees : s.Sees inputs)
    (isTx : Bool) : ∀ e ∈ inputs.cur,
      Tally.gain (Collector.baseline s.collector.primed {} (s.collector.prev e.1)) e.2
        (byteCounter isTx) ≤ s.traffic.since e.1 (byteCounter isTx) := by
  intro e he
  cases primed : s.collector.primed with
  | true => exact Metering.gain_le_since (h.primed primed) sees.traffic (byteCounter isTx) e he
  | false =>
    rw [h.unprimed primed e.1]
    exact Nat.zero_le _

/-- A poll adds no more to an address than was counted since the poll before. -/
theorem Counted.polled_le (h : s.Counted) {inputs : PollInputs} (sees : s.Sees inputs)
    (ip : UInt32) (isTx : Bool) :
    (((s.polled inputs).1.totals ip).getD {}).traffic (byteCounter isTx) +
        (s.stampBack 0).bytes (ip, directionOf isTx) ≤
      ((s.collector.totals ip).getD {}).traffic (byteCounter isTx) +
        s.bytes (ip, directionOf isTx) := by
  set c : Collector := { s.collector with lastPoll := some s.clock }
  have kept : (c.kept inputs ip).traffic (byteCounter isTx) ≤
      ((s.collector.totals ip).getD {}).traffic (byteCounter isTx) := by
    unfold Collector.kept
    split
    · exact le_rfl
    · cases isTx <;> exact Nat.zero_le _
  set own := inputs.cur.filter (·.1.ipv4 = ip)
  have since := h.since isTx ip (own.map Prod.fst)
    (sees.traffic.nodup.sublist (List.filter_sublist.map _)) (by
      intro k hk
      obtain ⟨e, he, rfl⟩ := List.mem_map.mp hk
      simpa using List.of_mem_filter he)
  have fits : c.Fits := ⟨h.fits.traffic, h.fits.verdicts, h.fits.ipv6⟩
  show (((c.applyPoll inputs _).1.totals ip).getD {}).traffic _ + _ ≤ _
  cases s.collector.lastPoll.isSome with
  | true =>
    have gained := List.sum_le_sum fun e he =>
      h.gain_le sees isTx e (List.mem_of_mem_filter (l := inputs.cur) (p := (·.1.ipv4 = ip)) he)
    have delta : Tally.of (c.deltas inputs true ip) (byteCounter isTx) ≤
        (own.map fun e => s.traffic.since e.1 (byteCounter isTx)).sum := by
      rw [Collector.of_deltas]
      exact (Nat.mod_le _ _).trans gained
    rw [fits.applyPoll_traffic]
    rw [Ledger.sinceAll, List.map_map] at since
    calc u64Add ((c.kept inputs ip).traffic (byteCounter isTx))
            (Tally.of (c.deltas inputs true ip) (byteCounter isTx)) + _
        ≤ _ + (own.map fun e => s.traffic.since e.1 (byteCounter isTx)).sum + _ :=
          Nat.add_le_add_right ((u64Add_le _ _).trans (Nat.add_le_add kept delta)) _
      _ ≤ _ := by
          rw [Nat.add_assoc]
          exact Nat.add_le_add_left since _
  | false =>
    rw [Collector.applyPoll_unelapsed]
    omega

/-- What a tick adds to a window was counted since the tick before. -/
theorem Counted.delta_le (h : s.Counted) {inputs : PollInputs} (sees : s.Sees inputs)
    (ip : UInt32) (isTx : Bool) :
    s.limiter.flowDelta (s.polled inputs).2.totals (ip, directionOf isTx) +
        (s.stampBack 0).bytes (ip, directionOf isTx) ≤ s.bytes (ip, directionOf isTx) := by
  have latest : (s.stampBack 0).bytes (ip, directionOf isTx) ≤ s.bytes (ip, directionOf isTx) :=
    (Nat.le_add_left _ _).trans (h.since isTx ip [] List.nodup_nil (by simp))
  rw [Limiter.flowDelta_eq]
  cases recorded : s.limiter.prevTotals ip with
  | none =>
    dsimp only
    omega
  | some p =>
    have polled := h.polled_le sees ip isTx
    have before := (h.baseline ip p recorded).2 isTx
    show (((s.polled inputs).2.totals ip).getD {}).bytes (directionOf isTx) -
      p.bytes (directionOf isTx) + _ ≤ _
    rw [bytes_totals]
    omega

/-- One more sample. -/
theorem Backed.push {flow : FlowKey} {log : List ℕ} {delta : ℕ} (h : s.Backed flow log)
    {inputs : PollInputs} {ips : List UInt32} {byReload : Bool}
    (bound : delta + (s.stampBack 0).bytes flow ≤ s.bytes flow) :
    (s.collect reaches inputs ips byReload).Backed flow (log ++ [delta]) := by
  obtain ⟨length, sums⟩ := h
  refine ⟨?_, ?_⟩
  · rw [List.length_append]
    exact Nat.succ_le_succ length
  · intro latest suffix
    rcases List.suffix_concat_iff.mp suffix with rfl | ⟨before, rfl, within⟩
    · simp
    · have sum := sums before within
      rw [List.sum_append, List.sum_singleton, List.length_append]
      show before.sum + delta + (s.stampBack before.length).bytes flow ≤ s.bytes flow
      omega

theorem Counted.tick (h : s.Counted) (hok : s.limiter.Ok) (positive : 0 < s.limiter.tickSecs)
    (ticks : s.Ticks reaches s') : s'.Counted := by
  cases ticks with
  | @collect byReload inputs ips _ sees visits =>
    refine ⟨?_, ?_, ?_, nofun, ?_, ?_⟩
    · intro isTx ip keys _ _
      show s.traffic.polled.sinceAll keys _ + s.bytes _ ≤ s.bytes _
      rw [Ledger.sinceAll_polled, Nat.zero_add]
    · have fits : Collector.Fits { s.collector with lastPoll := some s.clock } :=
        ⟨h.fits.traffic, h.fits.verdicts, h.fits.ipv6⟩
      exact fits.applyPoll inputs _
    · intro _
      refine (Ledger.follows_polled ?_).within
      intro k
      show Collector.carryForward inputs.cur s.collector.prev inputs.incomplete k = _
      rw [sees.complete]
      exact Collector.carryForward_complete sees.traffic k
    · intro ip p hp
      have index := Limiter.tick_sameIndex reaches s.nowSecs (s.polled inputs).2.totals s.limiter ips
      rw [show (s.collect reaches inputs ips byReload).limiter.effectivePolicy ip =
        s.limiter.effectivePolicy ip from index.effectivePolicy ip]
      rw [show (s.collect reaches inputs ips byReload).limiter.prevTotals ip = _ from
        Limiter.tick_prevTotals reaches s.nowSecs (s.polled inputs).2.totals s.limiter ips ip] at hp
      by_cases recorded : ip ∈ ips ∧ (s.limiter.effectivePolicy ip).isSome
      · rw [if_pos recorded] at hp
        obtain rfl := Option.some.inj hp
        exact ⟨recorded.2, fun isTx => (bytes_totals s inputs ip isTx).ge⟩
      · rw [if_neg recorded] at hp
        have policed := (h.baseline ip p hp).1
        -- an address that is not evaluated has no totals
        have absent : (s.polled inputs).1.totals ip = none := by
          by_contra counted
          refine recorded ⟨(visits.mem_iff ip).mpr (Or.inl ?_), policed⟩
          show (((s.polled inputs).1.totals ip).map IpStats.ipTotals).isSome
          rw [Option.isSome_map]
          exact Option.isSome_iff_ne_none.mpr counted
        refine ⟨policed, ?_⟩
        intro isTx
        show (((s.polled inputs).1.totals ip).getD {}).traffic _ ≤ _
        rw [absent]
        cases isTx <;> exact Nat.zero_le _
    · refine Limiter.Logged.tick h.windows hok positive s.nowSecs _ visits s.backed_nil
        (backed_nil _) ?_
      intro flow np log hp backed
      obtain ⟨ip, direction⟩ := flow
      obtain ⟨eff, -, hdir⟩ := Option.bind_eq_some_iff.mp hp
      obtain ⟨isTx, rfl⟩ := EffectivePolicy.direction_of_dir hdir
      exact Backed.push backed (h.delta_le sees ip isTx)

/-! ### A reload -/

theorem Counted.commit (h : s.Counted) (positive : 0 < s.limiter.tickSecs)
    (cfg : ValidatedConfig) (plan : ReloadPlan) : (s.commit cfg plan).Counted where
  since := h.since
  fits := h.fits.pruneIps _
  primed := h.primed
  unprimed := h.unprimed
  baseline := by
    intro ip p hp
    rw [show (s.commit cfg plan).limiter.prevTotals = _ from
      Limiter.commitReload_prevTotals s.limiter plan] at hp
    obtain ⟨hp, policed⟩ := Option.filter_eq_some_iff.mp hp
    refine ⟨policed, fun isTx => le_trans ?_ ((h.baseline ip p hp).2 isTx)⟩
    unfold Loop.commit Collector.pruneIps Table.retain
    dsimp only
    cases s.collector.totals ip with
    | none => exact le_rfl
    | some stats =>
      rw [Option.filter_some]
      split
      · exact le_rfl
      · cases isTx <;> exact Nat.zero_le _
  windows := Limiter.Logged.commitReload h.windows positive plan s.backed_nil

/-! ### Every run -/

/-- The limiter of the loop is one of its runs. -/
theorem Reachable.limiter (run : Reachable reaches accepts inTime s) :
    Limiter.Reachable reaches accepts false s.limiter s.pending := by
  induction run with
  | start starts =>
    obtain ⟨now, plan, hplan, limiter⟩ := starts.planned
    rw [limiter, starts.pending]
    exact .reload (.new _) starts.accepted (Limiter.visits_new _) hplan
  | elapse ns _ ih => exact ih
  | count key isTx len _ ih => exact ih
  | delete key _ ih => exact ih
  | revert _ mem ih => exact ih.revert mem
  | fire _ _ _ _ ih => exact ih
  | tick _ _ ticks ih =>
    cases ticks with
    | collect _ _ visits => exact ih.tick _ _ visits
  | rearm _ _ _ ih => exact ih
  | commit _ _ accepted _ visits hplan ih => exact ih.reload accepted visits hplan
  | reschedule _ _ _ ih => exact ih

theorem Reachable.tickSecs_pos (run : Reachable reaches accepts inTime s) :
    0 < s.limiter.tickSecs := by
  obtain ⟨h, observed⟩ := run.limiter.observed
  exact observed.tracks.tickSecs_pos

theorem Reachable.counted (run : Reachable reaches accepts inTime s) : s.Counted := by
  induction run with
  | start starts => exact starts.counted
  | elapse ns _ ih => exact ⟨ih.since, ih.fits, ih.primed, ih.unprimed, ih.baseline, ih.windows⟩
  | count key isTx len _ ih => exact ih.count key isTx len
  | delete key _ ih => exact ih.delete key
  | revert _ _ ih => exact ih.revert _
  | fire _ _ _ _ ih => exact ⟨ih.since, ih.fits, ih.primed, ih.unprimed, ih.baseline, ih.windows⟩
  | tick run _ ticks ih => exact ih.tick run.limiter.ok.1 run.tickSecs_pos ticks
  | rearm _ _ _ ih => exact ⟨ih.since, ih.fits, ih.primed, ih.unprimed, ih.baseline, ih.windows⟩
  | commit run _ _ _ visits hplan ih =>
    exact ih.commit run.tickSecs_pos _ _
  | reschedule _ _ _ ih => exact ⟨ih.since, ih.fits, ih.primed, ih.unprimed, ih.baseline, ih.windows⟩

/-- One tick of the limiter is one refresh interval. -/
theorem Reachable.tickSecs (run : Reachable reaches ValidatedConfig.Accepted inTime s) :
    s.limiter.tickSecs * nsPerSec = s.period := by
  induction run with
  | start starts =>
    obtain ⟨now, plan, -, limiter⟩ := starts.planned
    obtain ⟨least, whole⟩ := starts.accepted.refreshInterval
    rw [limiter, (Limiter.commitReload_index _ plan).1]
    show max _ 1 * nsPerSec = max _ 1 * nsPerMs
    unfold nsPerSec nsPerMs
    omega
  | elapse ns _ ih => exact ih
  | count key isTx len _ ih => exact ih
  | delete key _ ih => exact ih
  | @revert s action _ _ ih =>
    rw [show (s.revert action).limiter.tickSecs = _ from
      (Limiter.revertFailedAction_sameIndex s.limiter action).tickSecs]
    exact ih
  | fire _ _ _ _ ih => exact ih
  | @tick s s' _ _ ticks ih =>
    cases ticks with
    | @collect byReload inputs ips _ _ _ =>
      have index := Limiter.tick_sameIndex reaches s.nowSecs (s.polled inputs).2.totals s.limiter ips
      exact (congrArg (· * nsPerSec) index.tickSecs).trans ih
  | rearm _ _ _ ih => exact ih
  | @commit s cfg _ plan _ _ _ interval _ _ ih =>
    rw [show (s.commit cfg plan).limiter.tickSecs = _ from
      (Limiter.commitReload_index s.limiter plan).1, ih]
    simp only [Loop.period, Loop.commit, timerInterval, interval]
  | reschedule _ _ _ ih => exact ih

/-! ### The tick that limits a flow -/

/-- The window of the flow holds the latest `n` samples, and from the tick before them, or
the start, until now the data path has counted enough for an average on the trigger line,
of the time in between less one refresh interval. -/
def ReallyReached (s : Loop) (flow : FlowKey) : Prop :=
  ∃ w np, s.limiter.windows flow = some w ∧ s.limiter.dirPolicy flow = some np ∧
    let first := s.stampBack w.ring.length
    let last := s.stampBack 0
    np.triggerBps * (last.time - first.time - s.period) ≤
      8 * (last.bytes flow - first.bytes flow) * nsPerSec

/-- The tick before the latest `n`, or the start, was at most `n` intervals before the
pending deadline. -/
theorem OnTime.stampBack (h : s.OnTime) {n : ℕ} (short : n ≤ s.ticks.length)
    (inTime : s.InTime) : s.clock < (s.stampBack n).time + (n + 2) * s.period := by
  have promised : s.next .collect ≤ s.promised := by
    unfold Loop.promised
    split <;> omega
  have prompt : s.clock < s.promised + s.period :=
    Nat.lt_of_lt_of_le inTime (Nat.add_le_add_right promised _)
  refine h.kept.lt_of_prompt prompt ?_
  have bound : n < (s.ticks ++ [s.start]).length := by
    rw [List.length_append]
    exact Nat.lt_succ_of_le short
  have stamp : (s.ticks ++ [s.start])[n]? = some (s.stampBack n) := by
    rw [Loop.stampBack, List.getD_eq_getElem?_getD, List.getElem?_eq_getElem bound,
      Option.getD_some]
  have times : (s.ticks ++ [s.start]).map Stamp.time = s.ticks.map Stamp.time ++ [s.start.time] :=
    List.map_append
  rw [← times, List.getElem?_map, stamp, Option.map_some]

/-- The window that the flow's policy asks for is at most `2 ^ 52` nanoseconds long. -/
def ShortWindow (s : Loop) (flow : FlowKey) : Prop :=
  ∀ np, s.limiter.dirPolicy flow = some np →
    RollingWindow.sampleCount np.windowSecs s.limiter.tickSecs * s.period ≤ 2 ^ 52

/-- While every collection runs and ends before the next one is due, a flow is only limited
when its demand over the time that was observed reached the trigger line. -/
theorem limited_in_real_time
    (run : Reachable RollingWindow.reaches ValidatedConfig.Accepted InTime s)
    (inTime : s.InTime) (ticks : s.Ticks RollingWindow.reaches s') {flow : FlowKey}
    (short : s.ShortWindow flow) (before : ¬ s.limiter.Limited flow)
    (after : s'.limiter.Limited flow) : s'.ReallyReached flow := by
  have counted := run.counted.tick run.limiter.ok.1 run.tickSecs_pos ticks
  have run' := run.tick inTime ticks
  obtain ⟨w, np, hw, hp, full, hover⟩ : ∃ w np, s'.limiter.windows flow = some w ∧
      s'.limiter.dirPolicy flow = some np ∧ w.isFull = true ∧ w.reaches np.triggerBps = true := by
    cases ticks with
    | @collect byReload inputs ips _ _ visits =>
      obtain ⟨-, np, hp, window, reached⟩ :=
        run.limiter.ok.1.tick_limits s.nowSecs (s.polled inputs).2.totals visits before after
      have index := Limiter.tick_sameIndex RollingWindow.reaches s.nowSecs
        (s.polled inputs).2.totals s.limiter ips
      exact ⟨_, np, window, (index.dirPolicy flow).trans hp, reached⟩
  obtain ⟨log, logs, secs, length, sums⟩ := counted.windows flow w hw
  have enough := logs.isFull_iff.mp full
  have size := Nat.zero_lt_of_lt w.head_lt
  have bytes := sums w.samples (logs.samples_suffix full)
  rw [RollingWindow.length_samples, RollingWindow.sum_samples] at bytes
  have interval : w.tickSecs * nsPerSec = s'.period := secs ▸ run'.tickSecs
  have positive : 0 < w.tickSecs := secs ▸ run'.tickSecs_pos
  have asked : w.ring.length * s'.period ≤ 2 ^ 52 := by
    obtain ⟨p, hp', built⟩ := (run'.limiter.ok.1 flow).window w hw
    obtain rfl := Option.some.inj (hp'.symm.trans hp)
    rw [built.length_ring]
    cases ticks with
    | @collect byReload inputs ips _ _ _ =>
      have index := Limiter.tick_sameIndex RollingWindow.reaches s.nowSecs
        (s.polled inputs).2.totals s.limiter ips
      rw [show (s.collect RollingWindow.reaches inputs ips byReload).limiter.tickSecs =
        s.limiter.tickSecs from index.tickSecs]
      exact short p ((index.dirPolicy flow).symm.trans hp)
  have reached := logs.reached full positive (run'.limiter.bounded flow np hp).triggerBps_le hover
    nsPerSec (by decide) (by rw [Nat.mul_assoc, interval]; exact asked)
  rw [Nat.mul_assoc, interval] at reached
  have observed : (s'.stampBack 0).time - (s'.stampBack w.ring.length).time - s'.period ≤
      w.ring.length * s'.period - 1 := by
    cases ticks with
    | @collect byReload inputs ips _ _ _ =>
      obtain ⟨n, hn⟩ := Nat.exists_eq_succ_of_ne_zero size.ne'
      have short : n ≤ s.ticks.length := by
        have : (s.collect RollingWindow.reaches inputs ips byReload).ticks.length =
          s.ticks.length + 1 := rfl
        omega
      have time := run.onTime.stampBack short inTime
      have more : (n + 2) * s.period = (n + 1) * s.period + s.period := Nat.succ_mul _ _
      rw [hn]
      show s.clock - (s.stampBack n).time - s.period ≤ (n + 1) * s.period - 1
      omega
  refine ⟨w, np, hw, hp, ?_⟩
  dsimp only
  calc np.triggerBps * ((s'.stampBack 0).time - (s'.stampBack w.ring.length).time - s'.period)
      ≤ np.triggerBps * (w.ring.length * s'.period - 1) := Nat.mul_le_mul_left _ observed
    _ ≤ w.total * 8 * nsPerSec := reached
    _ ≤ _ := by
        have total := logs.total_le
        refine Nat.mul_le_mul_right _ ?_
        omega

/-! ### A collection that takes ten seconds -/

/-- What a poll reads of the entry of one address. -/
def oneEntry (value : TrafficValue) : PollInputs := ⟨[(Metering.quietKey, value)], [], [], false⟩

/-- The loop knows of one address only. -/
structure OneAddress (s : Loop) : Prop where
  limiter : s.limiter.KnowsOnly (1, dirRx)
  own : ∀ k, k ≠ Metering.quietKey → s.traffic.entries k = none

variable {value : TrafficValue}

theorem OneAddress.sees (h : s.OneAddress) (present : s.traffic.entries Metering.quietKey = some value) :
    s.Sees (oneEntry value) where
  traffic := by
    have entries : s.traffic.entries = Table.empty.insert Metering.quietKey value := by
      funext k
      by_cases hk : k = Metering.quietKey
      · subst hk
        rw [present, Table.insert_self]
      · rw [h.own k hk, Table.insert_of_ne hk, Table.empty_apply]
    rw [entries]
    exact Metering.reads_one _ _ _
  complete := rfl

theorem OneAddress.visits (h : s.OneAddress)
    (counted : ((s.polled (oneEntry value)).1.totals 1).isSome) :
    Visits [1] (s.limiter.Evaluated (s.polled (oneEntry value)).2.totals) := by
  apply h.limiter.among.visits (List.nodup_singleton 1) (by simp)
  intro ip
  show (((s.polled (oneEntry value)).1.totals ip).map IpStats.ipTotals).isSome ↔ _
  rw [Option.isSome_map, List.mem_singleton]
  by_cases hip : ip = 1
  · subst hip
    simp [counted]
  · have absent : (s.polled (oneEntry value)).1.totals ip = none :=
      s.collector.poll_other hip value s.clock
    simp [hip, absent]

theorem OneAddress.collect (h : s.OneAddress) (inputs : PollInputs) {ips : List UInt32}
    (distinct : ips.Nodup) (byReload : Bool) :
    (s.collect reaches inputs ips byReload).OneAddress :=
  ⟨h.limiter.tick s.nowSecs _ distinct, h.own⟩

theorem OneAddress.count (h : s.OneAddress) (isTx : Bool) (len : ℕ) :
    (s.count Metering.quietKey isTx len).OneAddress :=
  ⟨h.limiter, fun k hk => (Table.insert_of_ne hk).trans (h.own k hk)⟩

theorem OneAddress.elapse (h : s.OneAddress) (ns : ℕ) : (s.elapse ns).OneAddress :=
  ⟨h.limiter, h.own⟩

theorem OneAddress.rearm (h : s.OneAddress) (timer : Timer) : (s.rearm timer).OneAddress :=
  ⟨h.limiter, h.own⟩

/-- The first collection finds nothing. -/
def primedLoop : Loop :=
  (((freshLoop Limiter.twoSeconds Limiter.twoSecondsOnly).elapse nsPerSec).collect
    RollingWindow.reaches noInputs [] false).rearm .collect

/-- The second one finds the first packet: the baseline of the limiter. -/
def baselineLoop : Loop :=
  ((primedLoop.count Metering.quietKey false 64).elapse nsPerSec).collect
    RollingWindow.reaches (oneEntry { rxBytes := 64, rxPackets := 1 }) [1] false

/-- It ends after a while, in which four packets came. -/
def stalledLoop (ns : ℕ) : Loop :=
  let packet (s : Loop) : Loop := s.count Metering.quietKey false 62500
  packet (packet (packet (packet (baselineLoop.elapse ns))))

/-- One refresh interval later. -/
def waitedLoop (ns : ℕ) : Loop := ((stalledLoop ns).rearm .collect).elapse nsPerSec

/-- The third collection limits the flow. -/
def limitedLoop (ns : ℕ) : Loop :=
  (waitedLoop ns).collect RollingWindow.reaches
    (oneEntry { rxBytes := 250064, rxPackets := 5 }) [1] false

section Stall

variable (prompt : ∀ s : Loop, s.InTime → inTime s)
include prompt

theorem primedLoop_reachable :
    Reachable RollingWindow.reaches ValidatedConfig.Accepted inTime primedLoop := by
  have starts := starts_freshLoop Limiter.accepted_twoSeconds rfl
  refine .rearm (collect_nothing ((Reachable.start starts).elapse nsPerSec) (prompt _ ?_) rfl rfl
    rfl false ⟨rfl, ?_⟩) rfl fun _ => prompt _ ?_
  · unfold InTime
    decide
  · rfl
  · unfold InTime
    decide

theorem baselineLoop_reachable :
    Reachable RollingWindow.reaches ValidatedConfig.Accepted inTime baselineLoop ∧
      baselineLoop.OneAddress := by
  have first : primedLoop.OneAddress :=
    ⟨(Limiter.indexPlan_knowsOnly Limiter.twoSecondsOnly).tick _ _ List.nodup_nil, fun _ _ => rfl⟩
  have waited : ((primedLoop.count Metering.quietKey false 64).elapse nsPerSec).OneAddress :=
    (first.count false 64).elapse nsPerSec
  have run := ((primedLoop_reachable prompt).count Metering.quietKey false 64).elapse nsPerSec
  refine ⟨run.tick (prompt _ ?_) (.collect ⟨rfl, ?_⟩ (waited.sees rfl) (waited.visits ?_)),
    waited.collect _ (List.nodup_singleton 1) false⟩
  · unfold InTime
    decide
  · decide
  · rfl

theorem waitedLoop_reachable (ns : ℕ) (ends : inTime (stalledLoop ns)) :
    Reachable RollingWindow.reaches ValidatedConfig.Accepted inTime (waitedLoop ns) ∧
      (waitedLoop ns).OneAddress := by
  obtain ⟨run, one⟩ := baselineLoop_reachable prompt
  have counted : (stalledLoop ns).OneAddress :=
    ((((one.elapse ns).count _ _).count _ _).count _ _).count _ _
  have stalled : Reachable RollingWindow.reaches ValidatedConfig.Accepted inTime
      (stalledLoop ns) :=
    ((((run.elapse ns).count _ _ _).count _ _ _).count _ _ _).count _ _ _
  have fired : (stalledLoop ns).handler = .fired .collect := rfl
  exact ⟨(stalled.rearm fired fun _ => ends).elapse nsPerSec, (counted.rearm _).elapse _⟩

end Stall

/-- The third collection. -/
theorem limitedLoop_limits {ns : ℕ} (one : (waitedLoop ns).OneAddress)
    (due : (waitedLoop ns).next .collect ≤ (waitedLoop ns).clock)
    (present : (waitedLoop ns).traffic.entries Metering.quietKey =
      some { rxBytes := 250064, rxPackets := 5 })
    (counted : (((waitedLoop ns).polled
      (oneEntry { rxBytes := 250064, rxPackets := 5 })).1.totals 1).isSome) :
    (waitedLoop ns).Ticks RollingWindow.reaches (limitedLoop ns) :=
  .collect ⟨rfl, due⟩ (one.sees present) (one.visits counted)

/-- The second collection takes ten seconds, so nine deadlines are dropped: the full window
of two samples stands for two seconds, and the flow is limited although its 250064 bytes
came in twelve. -/
theorem limited_after_stall : ∃ s s' : Loop,
    Reachable RollingWindow.reaches ValidatedConfig.Accepted (fun _ => True) s ∧
      s.Ticks RollingWindow.reaches s' ∧ ¬ s.limiter.Limited (1, dirRx) ∧
      s'.limiter.Limited (1, dirRx) ∧ ¬ s'.ReallyReached (1, dirRx) := by
  obtain ⟨run, one⟩ := waitedLoop_reachable (fun _ _ => trivial) 10000000000 trivial
  refine ⟨_, limitedLoop 10000000000, run,
    limitedLoop_limits one (by decide) (by rfl) (by rfl), ?_, ?_, ?_⟩
  · intro h
    obtain ⟨s, hs, hphase⟩ := h
    have normal : (waitedLoop 10000000000).limiter.states (1, dirRx) = some {} := by rfl
    obtain rfl := Option.some.inj (normal.symm.trans hs)
    cases hphase
  · have limited : (((limitedLoop 10000000000).limiter.states (1, dirRx)).map DirState.phase) =
        some .limited := by decide +kernel
    obtain ⟨s, hs, hphase⟩ := Option.map_eq_some_iff.mp limited
    exact ⟨s, hs, hphase⟩
  · intro h
    obtain ⟨w, np, hw, hp, reached⟩ := h
    have size : ((limitedLoop 10000000000).limiter.windows (1, dirRx)).map (·.ring.length) =
        some 2 := by decide +kernel
    have policy : (limitedLoop 10000000000).limiter.dirPolicy (1, dirRx) =
        some Limiter.twoSecondsOnly := by decide +kernel
    rw [hw, Option.map_some, Option.some.injEq] at size
    obtain rfl := Option.some.inj (hp.symm.trans policy)
    rw [size] at reached
    revert reached
    decide

/-- The same run without the delay. -/
theorem limited_in_real_time_prompt : ∃ s s' : Loop,
    s.InTime ∧ s.Ticks RollingWindow.reaches s' ∧ s'.limiter.Limited (1, dirRx) ∧
      s'.ReallyReached (1, dirRx) := by
  have ends : InTime (stalledLoop 0) := by
    unfold InTime
    decide
  have inTime : InTime (waitedLoop 0) := by
    unfold InTime
    decide
  obtain ⟨run, one⟩ := waitedLoop_reachable (fun _ prompt => prompt) 0 ends
  have ticks := limitedLoop_limits one (by decide) (by rfl) (by rfl)
  have before : ¬ (waitedLoop 0).limiter.Limited (1, dirRx) := by
    intro h
    obtain ⟨s, hs, hphase⟩ := h
    have normal : (waitedLoop 0).limiter.states (1, dirRx) = some {} := by rfl
    obtain rfl := Option.some.inj (normal.symm.trans hs)
    cases hphase
  have after : (limitedLoop 0).limiter.Limited (1, dirRx) := by
    have limited : ((limitedLoop 0).limiter.states (1, dirRx)).map DirState.phase =
        some .limited := by decide +kernel
    obtain ⟨s, hs, hphase⟩ := Option.map_eq_some_iff.mp limited
    exact ⟨s, hs, hphase⟩
  have short : (waitedLoop 0).ShortWindow (1, dirRx) := by
    intro np hp
    have policy : (waitedLoop 0).limiter.dirPolicy (1, dirRx) = some Limiter.twoSecondsOnly := by rfl
    obtain rfl := Option.some.inj (hp.symm.trans policy)
    decide
  exact ⟨_, _, inTime, ticks, after, limited_in_real_time run inTime ticks short before after⟩

end Loop

end VmWatcher

import VmWatcher.Daemon.Loop
import VmWatcher.Misc.Cadence

/-!
# How fast the limiter's clock runs

The limiter takes each collection tick for one refresh interval. Ticks on the loop's own
deadlines never come faster than that, however late they are handled
(`scheduled_ticks_span`). The tick that every accepted reload runs comes on top of them.
-/

namespace VmWatcher

namespace Loop

variable {reaches : RollingWindow → ℕ → Bool} {accepts : ValidatedConfig → Prop}
variable {inTime : Loop → Prop} {s s' : Loop}

/-- When the ticks on the loop's own deadlines ran, latest first. -/
def scheduled (ticks : List Stamp) : List ℕ := (ticks.filter fun x => !x.byReload).map Stamp.time

/-- The next collection deadline, as it would be set now if it is still to be set. -/
def due (s : Loop) : ℕ :=
  if s.handler = .fired .collect then nextDeadline (s.next .collect) s.period s.clock
  else s.next .collect

/-- What the clock knows of the ticks. -/
structure Timed (s : Loop) : Prop where
  past : ∀ x ∈ s.ticks, x.time ≤ s.clock
  sorted : s.ticks.Pairwise fun x y => y.time ≤ x.time
  paced : Paced s.period s.due (scheduled s.ticks)

theorem due_idle (h : s.handler ≠ .fired .collect) : s.due = s.next .collect := if_neg h

theorem Starts.timed (h : s.Starts accepts) : s.Timed where
  past := by simp [h.ticks]
  sorted := by simp [h.ticks]
  paced := by
    rw [h.ticks]
    exact .nil

theorem Timed.elapse (h : s.Timed) (ns : ℕ) : (s.elapse ns).Timed where
  past := fun x hx => Nat.le_add_right_of_le (h.past x hx)
  sorted := h.sorted
  paced := by
    refine h.paced.mono ?_
    unfold due
    split
    · next fired =>
      rw [if_pos (show (s.elapse ns).handler = .fired .collect from fired)]
      exact nextDeadline_mono (Nat.le_add_right _ _)
    · next fired =>
      rw [if_neg (show ¬ (s.elapse ns).handler = .fired .collect from fired)]
      exact le_rfl

theorem Timed.fire (h : s.Timed) (idle : s.handler = .idle) {timer : Timer}
    (other : timer ≠ .collect) : Timed { s with handler := .fired timer } where
  past := h.past
  sorted := h.sorted
  paced := by
    have before : s.due = s.next .collect := due_idle (by simp [idle])
    have after : due { s with handler := .fired timer } = s.next .collect :=
      due_idle (by simpa using other)
    rw [after, ← before]
    exact h.paced

/-- A tick on the loop's deadline takes its turn in the cadence; that of a reload does not. -/
theorem Timed.tick (h : s.Timed) (ticks : s.Ticks reaches s') : s'.Timed := by
  cases ticks with
  | @collect byReload inputs ips may _ _ =>
    refine ⟨?_, List.pairwise_cons.mpr ⟨h.past, h.sorted⟩, ?_⟩
    · intro x hx
      rcases List.mem_cons.mp hx with rfl | hx
      · exact le_rfl
      · exact h.past x hx
    · cases byReload with
      | true =>
        have reloaded : s.handler = .reloaded := may
        have before : s.due = s.next .collect := due_idle (by simp [reloaded])
        have after : (s.collect reaches inputs ips true).due = s.next .collect :=
          due_idle (by simp [collect])
        rw [after, ← before]
        exact h.paced
      | false =>
        have before : s.due = s.next .collect := due_idle (by simp [may.1])
        have after : (s.collect reaches inputs ips false).due =
            nextDeadline (s.next .collect) s.period s.clock := if_pos rfl
        have paced := h.paced
        rw [before] at paced
        rw [after]
        exact paced.fire may.2 add_le_nextDeadline le_nextDeadline

theorem Timed.rearm (h : s.Timed) {timer : Timer} (fired : s.handler = .fired timer) :
    (s.rearm timer).Timed where
  past := h.past
  sorted := h.sorted
  paced := by
    have after : (s.rearm timer).due = (s.rearm timer).next .collect := due_idle (by simp [Loop.rearm])
    have same : (s.rearm timer).next .collect = s.due := by
      by_cases collect : timer = .collect
      · subst collect
        rw [due, if_pos fired]
        simp [Loop.rearm, Loop.period]
      · have idle : s.handler ≠ .fired .collect := by simpa [fired] using collect
        rw [due_idle idle]
        simp [Loop.rearm, Ne.symm collect]
    rw [after, same]
    exact h.paced

theorem Timed.commit (h : s.Timed) (idle : s.handler = .idle) {cfg : ValidatedConfig}
    (interval : cfg.refreshIntervalMs = s.config.refreshIntervalMs) (plan : ReloadPlan) :
    (s.commit cfg plan).Timed where
  past := h.past
  sorted := h.sorted
  paced := by
    have before : s.due = s.next .collect := due_idle (by simp [idle])
    have after : (s.commit cfg plan).due = s.next .collect := due_idle (by simp [Loop.commit])
    have period : (s.commit cfg plan).period = s.period := by
      simp only [Loop.period, Loop.commit, timerInterval, interval]
    rw [after, ← before, period]
    exact h.paced

theorem Timed.reschedule (h : s.Timed) (idle : s.handler = .idle) : s.reschedule.Timed where
  past := h.past
  sorted := h.sorted
  paced := by
    have before : s.due = s.next .collect := due_idle (by simp [idle])
    have after : s.reschedule.due = min (s.next .collect) (s.clock + s.period) :=
      due_idle (by simp [Loop.reschedule, idle])
    have paced := h.paced
    rw [before] at paced
    rw [after]
    apply paced.pull
    intro t ht
    obtain ⟨x, hx, rfl⟩ := List.mem_map.mp ht
    exact h.past x (List.mem_of_mem_filter hx)

theorem Reachable.timed (run : Reachable reaches accepts inTime s) : s.Timed := by
  induction run with
  | start starts => exact starts.timed
  | elapse ns _ ih => exact ih.elapse ns
  | count key isTx len _ ih => exact ⟨ih.past, ih.sorted, ih.paced⟩
  | delete key _ ih => exact ⟨ih.past, ih.sorted, ih.paced⟩
  | revert _ _ ih => exact ⟨ih.past, ih.sorted, ih.paced⟩
  | fire _ idle other _ ih => exact ih.fire idle other
  | tick _ _ ticks ih => exact ih.tick ticks
  | rearm _ fired _ ih => exact ih.rearm fired
  | commit _ idle _ interval _ _ ih => exact ih.commit idle interval _
  | reschedule _ idle _ ih => exact ih.reschedule idle

section Consecutive

variable {newest oldest : Stamp} {between : List Stamp}

/-- The ends of consecutive ticks bound all of them. -/
theorem Timed.within (h : s.Timed) (consecutive : newest :: (between ++ [oldest]) <:+: s.ticks) :
    ∀ x ∈ newest :: (between ++ [oldest]), oldest.time ≤ x.time ∧ x.time ≤ newest.time := by
  have sorted := h.sorted.sublist consecutive.sublist
  have first := (List.pairwise_cons.mp sorted).1
  rw [← List.cons_append] at sorted
  have last := (List.pairwise_append.mp sorted).2.2
  have ends : oldest.time ≤ newest.time := first oldest (by simp)
  intro x hx
  constructor
  · rw [← List.cons_append, List.mem_append, List.mem_singleton] at hx
    rcases hx with hx | rfl
    · exact last x hx oldest List.mem_cons_self
    · exact le_rfl
  · rcases List.mem_cons.mp hx with rfl | hx
    · exact le_rfl
    · exact first x hx

/-- Between the first and the last of any consecutive ticks lie as many refresh intervals
as there are ticks in between, less one for each of all these ticks that a reload ran. -/
theorem ticks_span (run : Reachable reaches accepts inTime s)
    (consecutive : newest :: (between ++ [oldest]) <:+: s.ticks) :
    oldest.time + (between.length -
        (newest :: (between ++ [oldest])).countP Stamp.byReload) * s.period ≤ newest.time := by
  have timed := run.timed
  have within := timed.within consecutive
  set part := newest :: (between ++ [oldest]) with hpart
  have inside : scheduled part <:+: scheduled s.ticks := (consecutive.filter _).map _
  have bounds : ∀ t ∈ scheduled part, oldest.time ≤ t ∧ t ≤ newest.time := by
    intro t ht
    obtain ⟨x, hx, rfl⟩ := List.mem_map.mp ht
    exact within x (List.mem_of_mem_filter hx)
  have size : part.countP Stamp.byReload + (scheduled part).length = between.length + 2 := by
    have split := part.length_eq_countP_add_countP Stamp.byReload
    have total : part.length = between.length + 2 := by simp [hpart]
    rw [scheduled, List.length_map, ← List.countP_eq_length_filter]
    simpa [total] using split.symm
  rcases Nat.lt_or_ge (scheduled part).length 2 with few | many
  · have none : between.length - part.countP Stamp.byReload = 0 := by omega
    rw [none, Nat.zero_mul, Nat.add_zero]
    exact (within newest (by simp [hpart])).1
  · have first := List.getElem?_eq_getElem (l := scheduled part) (i := 0) (by omega)
    have last := List.getElem?_eq_getElem (l := scheduled part)
      (i := (scheduled part).length - 1) (by omega)
    have apart := timed.paced.stretch inside (by omega) first last
    have low := (bounds _ (List.mem_of_getElem? last)).1
    have high := (bounds _ (List.mem_of_getElem? first)).2
    have same : between.length - part.countP Stamp.byReload = (scheduled part).length - 1 - (0 + 1) := by
      omega
    rw [same]
    omega

/-- Consecutive ticks that the loop ran on its own deadlines never come faster than one
for each refresh interval, however late they were handled. -/
theorem scheduled_ticks_span (run : Reachable reaches accepts inTime s)
    (consecutive : newest :: (between ++ [oldest]) <:+: s.ticks)
    (own : ∀ x ∈ newest :: (between ++ [oldest]), x.byReload = false) :
    oldest.time + between.length * s.period ≤ newest.time := by
  have none : (newest :: (between ++ [oldest])).countP Stamp.byReload = 0 :=
    List.countP_eq_zero.mpr fun x hx => by simp [own x hx]
  have span := ticks_span run consecutive
  rwa [none, Nat.sub_zero] at span

end Consecutive

/-! ### Reloads in a row -/

/-- Reachable without any traffic, between two handlers. -/
structure Quiet (s : Loop) : Prop where
  run : Reachable RollingWindow.reachesExactly ValidatedConfig.Accepted (fun _ => True) s
  idle : s.handler = .idle
  windows : s.limiter.windows = Table.empty
  states : s.limiter.states = Table.empty
  collector : s.collector.totals = Table.empty
  traffic : s.traffic.entries = Table.empty
  interval : s.config.refreshIntervalMs = 1000

/-- What a poll reads of an empty map. -/
def noInputs : PollInputs := ⟨[], [], [], false⟩

theorem sees_noInputs (h : s.traffic.entries = Table.empty) : s.Sees noInputs where
  traffic := ⟨List.nodup_nil, nofun, fun _ k v hv => by simp [h] at hv⟩
  complete := rfl

/-- The loop at its start, with a limit for one address. -/
def freshLoop (policy : PolicyFields) (np : DirPolicy) : Loop where
  clock := 0
  epoch := 0
  config := Limiter.oneAddress policy
  limiter := (Limiter.new 1).commitReload (Limiter.indexPlan ⟨some np, none⟩)
  pending := []
  collector := .new
  traffic := {}
  next := timerInterval (Limiter.oneAddress policy)
  changed := false
  handler := .idle
  bytes := fun _ => 0
  start := ⟨0, fun _ => 0, false⟩
  ticks := []

theorem starts_freshLoop {policy : PolicyFields} {np : DirPolicy}
    (accepted : (Limiter.oneAddress policy).Accepted)
    (planned : (Limiter.new 1).planReload (Limiter.oneAddress policy) 0 [] =
      .ok (Limiter.indexPlan ⟨some np, none⟩)) :
    (freshLoop policy np).Starts ValidatedConfig.Accepted where
  accepted := accepted
  planned := by
    have interval : (freshLoop policy np).config.refreshIntervalMs = 1000 := rfl
    rw [interval]
    exact ⟨0, _, planned, rfl⟩
  pending := rfl
  collector := rfl
  since := fun _ _ => rfl
  next := fun _ => (Nat.zero_add _).symm
  handler := rfl
  bytes := fun _ => rfl
  start := rfl
  ticks := rfl

/-- The loop at its start with one limit. -/
def quietLoop : Loop := freshLoop Limiter.receiveLimit Limiter.receiveOnly

theorem quiet_quietLoop : Quiet quietLoop where
  run := .start (starts_freshLoop Limiter.accepted_receiveLimit rfl)
  idle := rfl
  windows := rfl
  states := rfl
  collector := rfl
  traffic := rfl
  interval := rfl

/-- A poll that reads nothing leaves no totals. -/
theorem totals_noInputs (s : Loop) : (s.polled noInputs).1.totals = Table.empty := by
  funext ip
  simp [polled, Collector.poll, Collector.applyPoll, Collector.withDeltas, Collector.deltas,
    noInputs, Table.retain]

/-- A collection with nothing to collect. -/
theorem collect_nothing (run : Reachable reaches accepts inTime s) (prompt : inTime s)
    (windows : s.limiter.windows = Table.empty) (states : s.limiter.states = Table.empty)
    (traffic : s.traffic.entries = Table.empty) (byReload : Bool) (may : s.MayCollect byReload) :
    Reachable reaches accepts inTime (s.collect reaches noInputs [] byReload) := by
  have totals : (s.polled noInputs).2.totals = Table.empty := by
    funext ip
    simp [polled, Collector.poll, Collector.applyPoll, Collector.withDeltas, Collector.deltas,
      noInputs, Table.retain]
  have evaluated : Visits [] (s.limiter.Evaluated (s.polled noInputs).2.totals) :=
    ⟨List.nodup_nil, by simp [Limiter.Evaluated, Limiter.Limited, totals, windows, states]⟩
  exact run.tick prompt (.collect may (sees_noInputs traffic) evaluated)

/-- A reload of a file with another policy, a millisecond before its collection. -/
theorem Quiet.reload (h : s.Quiet) {policy : PolicyFields} {eff : EffectivePolicy}
    (accepted : (Limiter.oneAddress policy).Accepted)
    (planned : (Limiter.new 1).planReload (Limiter.oneAddress policy) 0 [] =
      .ok (Limiter.indexPlan eff)) :
    ∃ s', Quiet s' ∧ s'.clock = s.clock + 1000000 ∧
      s'.ticks = ⟨s.clock + 1000000, s.bytes, true⟩ :: s.ticks := by
  have none_limited : Visits [] s.limiter.Limited :=
    ⟨List.nodup_nil, by simp [Limiter.Limited, h.states]⟩
  have plan : s.limiter.planReload (Limiter.oneAddress policy) s.nowSecs [] =
      .ok (Limiter.indexPlan eff) := planned
  have committed := (h.run.commit h.idle accepted h.interval.symm none_limited plan).elapse 1000000
  set next := (s.commit (Limiter.oneAddress policy) (Limiter.indexPlan eff)).elapse 1000000
  have windows : next.limiter.windows = Table.empty := by
    funext flow
    show (s.limiter.windows flow).bind _ = none
    rw [h.windows]
    rfl
  have states : next.limiter.states = Table.empty := by
    funext flow
    show (s.limiter.states flow).filter _ = none
    rw [h.states]
    rfl
  have run := collect_nothing committed trivial windows states h.traffic true rfl
  exact ⟨_, ⟨run, rfl, windows, states, totals_noInputs next, h.traffic, rfl⟩, rfl, rfl⟩

/-- A collection on its own deadline. -/
theorem Quiet.tick (h : s.Quiet) {ns : ℕ} (waited : s.next .collect ≤ s.clock + ns) :
    ∃ s', Quiet s' ∧ s'.clock = s.clock + ns ∧
      s'.next .collect = nextDeadline (s.next .collect) s.period (s.clock + ns) ∧
      s'.ticks = ⟨s.clock + ns, s.bytes, false⟩ :: s.ticks := by
  have collected := collect_nothing (h.run.elapse ns) trivial h.windows h.states h.traffic false
    ⟨h.idle, waited⟩
  have rearmed : Reachable _ _ _ (rearm .collect _) := collected.rearm rfl fun _ => trivial
  exact ⟨_, ⟨rearmed, rfl, h.windows, h.states, totals_noInputs _, h.traffic, h.interval⟩, rfl,
    by simp [rearm, Loop.collect, Loop.elapse, period], rfl⟩

/-- Three accepted reloads within three milliseconds are three ticks, with a refresh
interval of a second. -/
theorem reload_ticks_run_fast : ∃ (s : Loop) (newest oldest : Stamp) (between : List Stamp),
    Reachable RollingWindow.reachesExactly ValidatedConfig.Accepted (fun _ => True) s ∧
      newest :: (between ++ [oldest]) <:+: s.ticks ∧ s.period = nsPerSec ∧
      ¬ oldest.time + between.length * s.period ≤ newest.time := by
  obtain ⟨s₁, quiet₁, clock₁, ticks₁⟩ :=
    quiet_quietLoop.reload Limiter.accepted_unlimited rfl
  obtain ⟨s₂, quiet₂, clock₂, ticks₂⟩ := quiet₁.reload Limiter.accepted_receiveLimit rfl
  obtain ⟨s₃, quiet₃, clock₃, ticks₃⟩ := quiet₂.reload Limiter.accepted_unlimited rfl
  have period : s₃.period = nsPerSec := by
    rw [Loop.period, timerInterval, quiet₃.interval]
    rfl
  refine ⟨s₃, ⟨s₂.clock + 1000000, s₂.bytes, true⟩, ⟨quietLoop.clock + 1000000, quietLoop.bytes, true⟩,
    [⟨s₁.clock + 1000000, s₁.bytes, true⟩], quiet₃.run, ?_, period, ?_⟩
  · rw [ticks₃, ticks₂, ticks₁]
    exact List.infix_refl _
  · rw [period, clock₂, clock₁]
    show ¬ 0 + 1000000 + 1 * 1000000000 ≤ 0 + 1000000 + 1000000 + 1000000
    decide

/-- The first tick is half a second late, the next ones are on time. -/
theorem scheduled_ticks_span_thrice : ∃ (s : Loop) (newest middle oldest : Stamp),
    s.ticks = [newest, middle, oldest] ∧ oldest.time + 1 * s.period ≤ newest.time := by
  have period : ∀ {s : Loop}, s.Quiet → s.period = 1000000000 := by
    intro s quiet
    rw [Loop.period, timerInterval, quiet.interval]
    rfl
  have due₀ : quietLoop.next .collect = 1000000000 := rfl
  have clock₀ : quietLoop.clock = 0 := rfl
  have waited : quietLoop.next .collect ≤ quietLoop.clock + 1500000000 := by
    rw [due₀]
    show 1000000000 ≤ 0 + 1500000000
    decide
  obtain ⟨s₁, quiet₁, clock₁, next₁, ticks₁⟩ := quiet_quietLoop.tick waited
  have due₁ : s₁.next .collect = 2000000000 := by
    rw [next₁, due₀, period quiet_quietLoop, clock₀]
    simp [nextDeadline]
  have waited : s₁.next .collect ≤ s₁.clock + 500000000 := by
    rw [due₁, clock₁]
    show 2000000000 ≤ 0 + 1500000000 + 500000000
    decide
  obtain ⟨s₂, quiet₂, clock₂, next₂, ticks₂⟩ := quiet₁.tick waited
  have due₂ : s₂.next .collect = 3000000000 := by
    rw [next₂, due₁, clock₁, period quiet₁, clock₀]
    simp [nextDeadline]
  have waited : s₂.next .collect ≤ s₂.clock + 1000000000 := by
    rw [due₂, clock₂, clock₁]
    show 3000000000 ≤ 0 + 1500000000 + 500000000 + 1000000000
    decide
  obtain ⟨s₃, quiet₃, -, -, ticks₃⟩ := quiet₂.tick waited
  have ticks : s₃.ticks = [⟨s₂.clock + 1000000000, s₂.bytes, false⟩,
      ⟨s₁.clock + 500000000, s₁.bytes, false⟩,
      ⟨quietLoop.clock + 1500000000, quietLoop.bytes, false⟩] := by
    rw [ticks₃, ticks₂, ticks₁]
    rfl
  refine ⟨s₃, _, _, _, ticks, ?_⟩
  have consecutive : ⟨s₂.clock + 1000000000, s₂.bytes, false⟩ ::
      ([⟨s₁.clock + 500000000, s₁.bytes, false⟩] ++
        [⟨quietLoop.clock + 1500000000, quietLoop.bytes, false⟩]) <:+: s₃.ticks := by
    rw [ticks]
    exact List.infix_refl _
  exact scheduled_ticks_span quiet₃.run consecutive (by simp)

end Loop

end VmWatcher

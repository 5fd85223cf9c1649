import VmWatcher.Core.Proofs.Recovery
import VmWatcher.Core.Proofs.WindowLog

/-!
# How long a flow was measured before it is limited

A run of the limiter is watched from outside: the ticks are counted, the totals an
address is recorded with are kept from its baseline on, and of every window it is known
since which tick whole intervals have passed after it was last created, reset or resized. The
samples of a window are then the deltas between consecutive recordings. In a window that still
holds the sample of the tick that created it one of them may be the zero of the baseline, and
in one that still holds the first sample after a reload one interval was running when the
reload emptied it.
-/

namespace VmWatcher

/-- The bytes of one direction. -/
def IpTotals.bytes (t : IpTotals) (dir : UInt8) : ℕ := if dir = dirRx then t.rxBytes else t.txBytes

/-- The byte deltas between consecutive recordings, oldest first. -/
def measured (dir : UInt8) (totals : List IpTotals) : List ℕ :=
  List.zipWith (fun prev cur => cur.bytes dir - prev.bytes dir) totals totals.tail

theorem measured_concat {dir : UInt8} {prev cur : IpTotals} {totals : List IpTotals}
    (h : totals.getLast? = some prev) :
    measured dir (totals ++ [cur]) = measured dir totals ++ [cur.bytes dir - prev.bytes dir] := by
  induction totals with
  | nil => cases h
  | cons t rest ih =>
    cases rest with
    | nil =>
      obtain rfl := Option.some.inj h
      rfl
    | cons t' rest =>
      rw [List.getLast?_cons_cons] at h
      exact congrArg ((t'.bytes dir - t.bytes dir) :: ·) (ih h)

/-! ### What a run shows -/

/-- What was recorded of an address since its baseline. -/
structure Recordings where
  /-- The tick of the first observation. -/
  baseline : ℕ
  /-- The recorded totals, oldest first. -/
  totals : List IpTotals

/-- How a window was last created, reset or resized. -/
structure WindowLife where
  /-- The first tick from which on its intervals are whole: the one that created it or in which
  a limit expired, or the one after a reload. -/
  started : ℕ
  /-- Whether it was last emptied by the expiry of a limit. -/
  expired : Bool := false

/-- The window as it is seen after the given tick: empty only if a limit is over. -/
def WindowLife.seen (ticks : ℕ) (w : RollingWindow) (life : WindowLife) : WindowLife :=
  if w.observed = 0 then ⟨ticks, true⟩ else life

/-- A reload resets or resizes the window of the flow. -/
def Limiter.restarts (l : Limiter) (plan : ReloadPlan) (flow : FlowKey) : Bool :=
  flow ∈ plan.flowResets || (l.windows flow).any fun w =>
    (lookupDir plan.newRanges plan.newOverrides flow).any fun np => np.windowSecs ≠ w.windowSecs

/-- The history of a run. -/
structure History where
  ticks : ℕ := 0
  recordings : Table UInt32 Recordings := Table.empty
  windows : Table FlowKey WindowLife := Table.empty

namespace History

/-- One more recording of an address. -/
def record (h : History) (ip : UInt32) (cur : IpTotals) : Recordings :=
  match h.recordings ip with
  | none => ⟨h.ticks + 1, [cur]⟩
  | some r => { r with totals := r.totals ++ [cur] }

/-- A tick from `l` to `l'` records every address it evaluates that has a policy. -/
def tick (h : History) (l l' : Limiter) (totals : Table UInt32 IpTotals) (ips : List UInt32) :
    History where
  ticks := h.ticks + 1
  recordings := fun ip =>
    if ip ∈ ips ∧ (l.effectivePolicy ip).isSome then some (h.record ip ((totals ip).getD {}))
    else h.recordings ip
  windows := fun flow =>
    (l'.windows flow).map fun w => ((h.windows flow).getD ⟨h.ticks + 1, false⟩).seen (h.ticks + 1) w

/-- A reload of `l` forgets the baseline of an address without a policy. The interval it
comes in is not a whole one for the windows it empties. -/
def reload (h : History) (l : Limiter) (plan : ReloadPlan) : History where
  ticks := h.ticks
  recordings := h.recordings.retain fun ip _ => ((l.commitReload plan).effectivePolicy ip).isSome
  windows := fun flow => ((l.commitReload plan).windows flow).bind fun _ =>
    (h.windows flow).map fun life =>
      if l.restarts plan flow then ⟨h.ticks + 1, false⟩ else life

end History

namespace Limiter

variable (reaches : RollingWindow → ℕ → Bool) (accepts : ValidatedConfig → Prop)

/-- A reachable limiter with the history of its run. -/
inductive Observed : Limiter → List LimitAction → History → Prop where
  | new (tickSecs : ℕ) : Observed (Limiter.new tickSecs) [] {}
  | reload {l : Limiter} {pending : List LimitAction} {h : History} {cfg : ValidatedConfig}
      {now : ℕ} {limited : List FlowKey} {plan : ReloadPlan} :
      Observed l pending h → accepts cfg → Visits limited l.Limited →
      l.planReload cfg now limited = .ok plan →
      Observed (l.commitReload plan) [] (h.reload l plan)
  | tick {l : Limiter} {pending : List LimitAction} {h : History} (now : ℕ)
      (totals : Table UInt32 IpTotals) {ips : List UInt32} :
      Observed l pending h → Visits ips (l.Evaluated totals) →
      Observed (l.tick reaches now totals ips).1 (l.tick reaches now totals ips).2
        (h.tick l (l.tick reaches now totals ips).1 totals ips)
  | revert {l : Limiter} {pending : List LimitAction} {h : History} {action : LimitAction} :
      Observed l pending h → action ∈ pending →
      Observed (l.revertFailedAction action) pending h

variable {reaches accepts} {l : Limiter} {pending : List LimitAction} {h : History}

theorem Observed.reachable (obs : Observed reaches accepts l pending h) :
    Reachable reaches accepts false l pending := by
  induction obs with
  | new tickSecs => exact .new tickSecs
  | reload _ accepted visits hplan ih => exact ih.reload accepted visits hplan
  | tick now totals _ visits ih => exact ih.tick now totals visits
  | revert _ hmem ih => exact ih.revert hmem

/-- Every run has a history. -/
theorem Reachable.observed (reached : Reachable reaches accepts false l pending) :
    ∃ h, Observed reaches accepts l pending h := by
  induction reached with
  | new tickSecs => exact ⟨_, .new tickSecs⟩
  | reload _ accepted visits hplan ih =>
    obtain ⟨h, obs⟩ := ih
    exact ⟨_, obs.reload accepted visits hplan⟩
  | tick now totals _ visits ih =>
    obtain ⟨h, obs⟩ := ih
    exact ⟨_, obs.tick now totals visits⟩
  | revert _ hmem ih =>
    obtain ⟨h, obs⟩ := ih
    exact ⟨h, obs.revert hmem⟩

end Limiter

/-! ### The samples of a window -/

/-- The log of a window is the end of what was measured, the zero of the baseline in front,
and goes back to where the window started. -/
structure Measures (ticks : ℕ) (dir : UInt8) (life : WindowLife) (r : Recordings)
    (log : List ℕ) : Prop where
  suffix : log <:+ 0 :: measured dir r.totals
  baseline_le : r.baseline ≤ life.started
  fresh : life.expired = false → life.started + log.length = ticks + 1
  expired : life.expired = true → log <:+ measured dir r.totals ∧ life.started + log.length = ticks

section Measures

variable {ticks : ℕ} {dir : UInt8} {life : WindowLife} {r : Recordings} {log log' : List ℕ}
variable {w : RollingWindow} {prev cur : IpTotals}

theorem suffix_concat {l m : List ℕ} (h : l <:+ m) (x : ℕ) : l ++ [x] <:+ m ++ [x] := by
  obtain ⟨front, rfl⟩ := h
  exact ⟨front, by simp⟩

/-- One more sample. -/
theorem Measures.push (m : Measures ticks dir life r log) (last : r.totals.getLast? = some prev) :
    Measures (ticks + 1) dir life { r with totals := r.totals ++ [cur] }
      (log ++ [cur.bytes dir - prev.bytes dir]) := by
  refine ⟨?_, m.baseline_le, ?_, ?_⟩
  · rw [measured_concat last, ← List.cons_append]
    exact suffix_concat m.suffix _
  · intro fresh
    have := m.fresh fresh
    rw [List.length_append, List.length_singleton]
    omega
  · intro expired
    obtain ⟨suffix, length⟩ := m.expired expired
    rw [measured_concat last, List.length_append, List.length_singleton]
    exact ⟨suffix_concat suffix _, by omega⟩

/-- The first sample of a window made for an address that was recorded before. -/
theorem Measures.create (last : r.totals.getLast? = some prev) (baseline : r.baseline ≤ ticks) :
    Measures (ticks + 1) dir ⟨ticks + 1, false⟩ { r with totals := r.totals ++ [cur] }
      [cur.bytes dir - prev.bytes dir] := by
  refine ⟨?_, baseline.trans (Nat.le_succ _), fun _ => rfl, nofun⟩
  rw [measured_concat last, ← List.cons_append]
  exact List.suffix_append _ _

/-- The first sample of a window made at the baseline. -/
theorem Measures.first : Measures (ticks + 1) dir ⟨ticks + 1, false⟩ ⟨ticks + 1, [cur]⟩ [0] :=
  ⟨List.suffix_refl _, le_rfl, fun _ => rfl, nofun⟩

/-- A window that a tick has emptied, or not. -/
theorem Measures.seen (m : Measures ticks dir life r log) (baseline : r.baseline ≤ ticks)
    (logs : w.Logs log') (kept : log' = log ∨ log' = []) :
    Measures ticks dir (life.seen ticks w) r log' := by
  unfold WindowLife.seen
  by_cases empty : w.observed = 0
  · obtain rfl := logs.observed_eq_zero_iff.mp empty
    rw [if_pos empty]
    exact ⟨List.nil_suffix, baseline, nofun, fun _ => ⟨List.nil_suffix, rfl⟩⟩
  · rw [if_neg empty]
    rcases kept with rfl | rfl
    · exact m
    · exact absurd (logs.observed_eq_zero_iff.mpr rfl) empty

/-- A window that a reload has emptied. -/
theorem Measures.restart (baseline : r.baseline ≤ ticks) :
    Measures ticks dir ⟨ticks + 1, false⟩ r [] :=
  ⟨List.nil_suffix, baseline.trans (Nat.le_succ _), fun _ => rfl, nofun⟩

end Measures

/-! ### Every step -/

namespace FlowView

variable {reaches : RollingWindow → ℕ → Bool} {flow : FlowKey} {np : DirPolicy}
variable {tickSecs delta now : ℕ} {v : FlowView}

/-- A tick adds its delta to the window, and empties the window when a limit is over. -/
theorem eval_window :
    let w := (v.window.getD (.new np.windowSecs tickSecs)).add delta
    (v.eval reaches flow np tickSecs delta now).1.window = some w ∨
      (v.eval reaches flow np tickSecs delta now).1.window = some w.reset := by
  unfold FlowView.eval
  dsimp only
  split
  · split <;> exact Or.inl rfl
  · split
    · exact Or.inr rfl
    · exact Or.inl rfl

/-- A tick that limits a flow has found its window full and over the trigger line. -/
theorem eval_limits (normal : ∀ s, v.state = some s → s.phase = .normal)
    (limits : ∃ s, (v.eval reaches flow np tickSecs delta now).1.state = some s ∧
      s.phase = .limited) :
    let w := (v.window.getD (.new np.windowSecs tickSecs)).add delta
    (v.eval reaches flow np tickSecs delta now).1.window = some w ∧ w.isFull = true ∧
      reaches w np.triggerBps = true := by
  intro w
  have phase : (v.state.getD {}).phase = .normal := by
    cases hs : v.state with
    | none => rfl
    | some s => exact normal s hs
  obtain ⟨s, hs, hphase⟩ := limits
  unfold FlowView.eval at hs ⊢
  simp only [phase] at hs ⊢
  by_cases hit : w.isFull && reaches w np.triggerBps
  · obtain ⟨full, hover⟩ := Bool.and_eq_true_iff.mp hit
    rw [if_pos hit]
    exact ⟨rfl, full, hover⟩
  · rw [if_neg hit] at hs
    obtain rfl := Option.some.inj hs
    rw [phase] at hphase
    cases hphase

end FlowView

/-- What the history knows of one window. -/
structure History.Follows (h : History) (tickSecs : ℕ) (flow : FlowKey) (w : RollingWindow)
    (life : WindowLife) (r : Recordings) (log : List ℕ) : Prop where
  life_eq : h.windows flow = some life
  recordings_eq : h.recordings flow.1 = some r
  measures : Measures h.ticks flow.2 life r log
  logs : w.Logs log
  tickSecs_eq : w.tickSecs = tickSecs

/-- The history agrees with the limiter. -/
structure History.Tracks (h : History) (l : Limiter) : Prop where
  tickSecs_pos : 0 < l.tickSecs
  baseline : ∀ ip, l.prevTotals ip = (h.recordings ip).bind fun r => r.totals.getLast?
  recorded : ∀ ip r, h.recordings ip = some r →
    (∃ last, r.totals.getLast? = some last) ∧ r.baseline ≤ h.ticks
  windowless : ∀ flow, l.windows flow = none → h.windows flow = none
  window : ∀ flow w, l.windows flow = some w →
    ∃ life r log, h.Follows l.tickSecs flow w life r log

namespace Limiter

/-- The bytes a tick adds to a window: none at the baseline. -/
theorem flowDelta_eq (l : Limiter) (totals : Table UInt32 IpTotals) (flow : FlowKey) :
    l.flowDelta totals flow =
      match l.prevTotals flow.1 with
      | none => 0
      | some prev => ((totals flow.1).getD {}).bytes flow.2 - prev.bytes flow.2 := by
  unfold flowDelta deltas IpTotals.bytes
  cases l.prevTotals flow.1 with
  | none => simp
  | some prev => by_cases hdir : flow.2 = dirRx <;> simp [hdir]

variable {reaches : RollingWindow → ℕ → Bool} {accepts : ValidatedConfig → Prop}
variable {l : Limiter} {pending : List LimitAction} {h : History}

theorem tracks_new (tickSecs : ℕ) : History.Tracks {} (Limiter.new tickSecs) where
  tickSecs_pos := Nat.lt_of_lt_of_le Nat.zero_lt_one (Nat.le_max_right tickSecs 1)
  baseline _ := rfl
  recorded := nofun
  windowless _ _ := rfl
  window := nofun

/-- The first recording of an address, or one more. -/
theorem getLast?_record (h : History) (ip : UInt32) (cur : IpTotals) :
    (h.record ip cur).totals.getLast? = some cur := by
  unfold History.record
  cases h.recordings ip with
  | none => rfl
  | some r => exact List.getLast?_concat

/-- One more sample of a window. -/
theorem push_measures (tracks : h.Tracks l) (totals : Table UInt32 IpTotals) {flow : FlowKey}
    {w : RollingWindow} {life : WindowLife} {r : Recordings} {log : List ℕ}
    (follows : h.Follows l.tickSecs flow w life r log) :
    Measures (h.ticks + 1) flow.2 life (h.record flow.1 ((totals flow.1).getD {}))
      (log ++ [l.flowDelta totals flow]) := by
  have hrec := follows.recordings_eq
  obtain ⟨⟨prev, last⟩, -⟩ := tracks.recorded _ _ hrec
  have baseline : l.prevTotals flow.1 = some prev := by
    rw [tracks.baseline, hrec]
    exact last
  have recorded : h.record flow.1 ((totals flow.1).getD {}) =
      { r with totals := r.totals ++ [(totals flow.1).getD {}] } := by
    rw [History.record, hrec]
  rw [recorded, flowDelta_eq, baseline]
  exact follows.measures.push last

/-- The window of a flow after a tick has added its sample. -/
def sampled (l : Limiter) (totals : Table UInt32 IpTotals) (flow : FlowKey) (np : DirPolicy) :
    RollingWindow :=
  ((l.windows flow).getD (.new np.windowSecs l.tickSecs)).add (l.flowDelta totals flow)

theorem sampled_of_some {totals : Table UInt32 IpTotals} {flow : FlowKey} {np : DirPolicy}
    {w : RollingWindow} (hw : l.windows flow = some w) :
    l.sampled totals flow np = w.add (l.flowDelta totals flow) := by
  rw [sampled, hw, Option.getD_some]

theorem sampled_of_none {totals : Table UInt32 IpTotals} {flow : FlowKey} {np : DirPolicy}
    (hw : l.windows flow = none) : l.sampled totals flow np =
      (RollingWindow.new np.windowSecs l.tickSecs).add (l.flowDelta totals flow) := by
  rw [sampled, hw, Option.getD_none]

theorem sample_measures (tracks : h.Tracks l) (totals : Table UInt32 IpTotals) (flow : FlowKey)
    (np : DirPolicy) :
    (l.sampled totals flow np).tickSecs = l.tickSecs ∧
      ∃ log, (l.sampled totals flow np).Logs log ∧
        Measures (h.ticks + 1) flow.2 ((h.windows flow).getD ⟨h.ticks + 1, false⟩)
          (h.record flow.1 ((totals flow.1).getD {})) log := by
  cases hw : l.windows flow with
  | some w =>
    obtain ⟨life, r, log, follows⟩ := tracks.window flow w hw
    rw [sampled_of_some hw, follows.life_eq]
    exact ⟨follows.tickSecs_eq, _, follows.logs.add _, push_measures tracks totals follows⟩
  | none =>
    rw [sampled_of_none hw, tracks.windowless flow hw]
    refine ⟨Nat.max_eq_left tracks.tickSecs_pos, _, (RollingWindow.logs_new _ _).add _, ?_⟩
    rw [flowDelta_eq, tracks.baseline, History.record]
    cases hrec : h.recordings flow.1 with
    | none => exact .first
    | some r =>
      obtain ⟨⟨prev, last⟩, baseline⟩ := tracks.recorded _ _ hrec
      rw [Option.bind_some, last]
      exact .create last baseline

/-- An address with a policy for a direction has a policy. -/
theorem effectivePolicy_of_dirPolicy {flow : FlowKey} {np : DirPolicy}
    (hp : l.dirPolicy flow = some np) : (l.effectivePolicy flow.1).isSome := by
  obtain ⟨eff, heff, -⟩ := Option.bind_eq_some_iff.mp hp
  exact Option.isSome_of_eq_some heff

/-- A window is evaluated by every tick, and its flow has a policy. -/
theorem Ok.window_evaluated (hok : l.Ok) {totals : Table UInt32 IpTotals} {ips : List UInt32}
    (visits : Visits ips (l.Evaluated totals)) {flow : FlowKey} {w : RollingWindow}
    (hw : l.windows flow = some w) : flow.1 ∈ ips ∧ ∃ np, l.dirPolicy flow = some np := by
  refine ⟨(visits.mem_iff flow.1).mpr (Or.inr ⟨flow.2, Or.inl (Option.isSome_of_eq_some hw)⟩), ?_⟩
  obtain ⟨np, hp, -⟩ := (hok flow).window w hw
  exact ⟨np, hp⟩

variable (reaches) in
/-- What a tick does to a flow, whether or not it evaluates its address. -/
theorem Ok.tick_view (hok : l.Ok) (now : ℕ) (totals : Table UInt32 IpTotals) {ips : List UInt32}
    (visits : Visits ips (l.Evaluated totals)) (flow : FlowKey) :
    (flow.1 ∈ ips ∧ ∃ np, l.dirPolicy flow = some np ∧
      (l.tick reaches now totals ips).1.view flow =
        (({ l.view flow with expired := none } : FlowView).eval reaches flow np l.tickSecs
          (l.flowDelta totals flow) now).1) ∨
    (l.windows flow = none ∧
      (l.tick reaches now totals ips).1.view flow = { l.view flow with expired := none }) := by
  have hflow := congrArg Prod.fst (tick_flow reaches now totals l ips visits.nodup flow)
  by_cases hmem : flow.1 ∈ ips
  · rw [if_pos hmem] at hflow
    have cleared : ({ l with expired := Table.empty } : Limiter).dirPolicy flow =
        l.dirPolicy flow := rfl
    unfold Limiter.flowTick at hflow
    rw [cleared] at hflow
    cases hp : l.dirPolicy flow with
    | some np =>
      rw [hp] at hflow
      exact Or.inl ⟨hmem, np, rfl, hflow⟩
    | none =>
      rw [hp] at hflow
      have none : l.windows flow = none := by
        by_contra hsome
        obtain ⟨w, hw⟩ := Option.ne_none_iff_exists'.mp hsome
        obtain ⟨-, np, hp'⟩ := hok.window_evaluated visits hw
        rw [hp] at hp'
        cases hp'
      exact Or.inr ⟨none, hflow⟩
  · rw [if_neg hmem] at hflow
    have none : l.windows flow = none := by
      by_contra hsome
      obtain ⟨w, hw⟩ := Option.ne_none_iff_exists'.mp hsome
      exact hmem (hok.window_evaluated visits hw).1
    exact Or.inr ⟨none, hflow⟩

/-- The window a tick leaves a flow with has its sample, or is empty because a limit is
over. -/
theorem Ok.tick_window (hok : l.Ok) (now : ℕ) (totals : Table UInt32 IpTotals)
    {ips : List UInt32} (visits : Visits ips (l.Evaluated totals)) {flow : FlowKey}
    {w' : RollingWindow} (hw' : (l.tick reaches now totals ips).1.windows flow = some w') :
    flow.1 ∈ ips ∧ ∃ np, l.dirPolicy flow = some np ∧
      (w' = l.sampled totals flow np ∨ w' = (l.sampled totals flow np).reset) := by
  rcases hok.tick_view reaches now totals visits flow with ⟨hmem, np, hp, hview⟩ | ⟨none, hview⟩
  · have window : some w' = some (l.sampled totals flow np) ∨
        some w' = some (l.sampled totals flow np).reset := by
      rw [← hw', show (l.tick reaches now totals ips).1.windows flow = _ from
        congrArg FlowView.window hview]
      exact FlowView.eval_window
    exact ⟨hmem, np, hp, window.imp Option.some.inj Option.some.inj⟩
  · have gone := (congrArg FlowView.window hview).trans none
    cases hw'.symm.trans gone

/-- A tick that limits a flow has found the window with its sample full and over the trigger
line. -/
theorem Ok.tick_limits (hok : l.Ok) (now : ℕ) (totals : Table UInt32 IpTotals)
    {ips : List UInt32} (visits : Visits ips (l.Evaluated totals)) {flow : FlowKey}
    (before : ¬ l.Limited flow) (after : (l.tick reaches now totals ips).1.Limited flow) :
    flow.1 ∈ ips ∧ ∃ np, l.dirPolicy flow = some np ∧
      (l.tick reaches now totals ips).1.windows flow = some (l.sampled totals flow np) ∧
      (l.sampled totals flow np).isFull = true ∧
      reaches (l.sampled totals flow np) np.triggerBps = true := by
  have normal : ∀ s, l.states flow = some s → s.phase = .normal := by
    intro s hs
    cases hphase : s.phase with
    | normal => rfl
    | limited => exact absurd ⟨s, hs, hphase⟩ before
  obtain ⟨s, hs, hphase⟩ := after
  rcases hok.tick_view reaches now totals visits flow with ⟨hmem, np, hp, hview⟩ | ⟨-, hview⟩
  · have limits := FlowView.eval_limits (v := { l.view flow with expired := none }) normal
      ⟨s, (congrArg FlowView.state hview).symm.trans hs, hphase⟩
    exact ⟨hmem, np, hp, (congrArg FlowView.window hview).trans limits.1, limits.2⟩
  · have kept : (l.tick reaches now totals ips).1.states flow = l.states flow :=
      congrArg FlowView.state hview
    exact absurd ⟨s, kept.symm.trans hs, hphase⟩ before

/-- The window a reload leaves a flow with is the one it had, or an empty one if the reload has
reset or resized it. -/
theorem commitReload_window {plan : ReloadPlan} {flow : FlowKey} {w' : RollingWindow}
    (hw' : (l.commitReload plan).windows flow = some w') :
    (∃ np, (l.commitReload plan).dirPolicy flow = some np) ∧ ∃ w, l.windows flow = some w ∧
      if l.restarts plan flow then
        w'.Logs [] ∧ (w'.tickSecs = w.tickSecs ∨ w'.tickSecs = max l.tickSecs 1)
      else w' = w := by
  have hview := congrArg FlowView.window (commitReload_flow l plan flow)
  dsimp only at hview
  rw [show (l.commitReload plan).windows flow = _ from hview] at hw'
  obtain ⟨w₁, hw₁, fitted⟩ := Option.bind_eq_some_iff.mp hw'
  obtain ⟨np, hp, rfl⟩ := Option.map_eq_some_iff.mp fitted
  refine ⟨⟨np, (commitReload_dirPolicy l plan flow).trans hp⟩, ?_⟩
  by_cases reset : flow ∈ plan.flowResets
  · rw [if_pos reset] at hw₁
    obtain ⟨w, hw, rfl⟩ := Option.map_eq_some_iff.mp hw₁
    have restarts : l.restarts plan flow = true := by simp [restarts, reset]
    refine ⟨w, hw, ?_⟩
    rw [if_pos restarts, RollingWindow.fit]
    split
    · exact ⟨RollingWindow.logs_new _ _, .inr rfl⟩
    · exact ⟨w.logs_reset, .inl rfl⟩
  · rw [if_neg reset] at hw₁
    refine ⟨w₁, hw₁, ?_⟩
    have resized : l.restarts plan flow = decide (np.windowSecs ≠ w₁.windowSecs) := by
      simp [restarts, reset, hw₁, hp]
    rw [resized, RollingWindow.fit]
    by_cases other : np.windowSecs ≠ w₁.windowSecs
    · rw [if_pos other, if_pos (decide_eq_true other)]
      exact ⟨RollingWindow.logs_new _ _, .inr rfl⟩
    · rw [if_neg other, if_neg (by simpa using other)]

theorem tracks_tick (tracks : h.Tracks l) (hok : l.Ok) (now : ℕ)
    (totals : Table UInt32 IpTotals) {ips : List UInt32}
    (visits : Visits ips (l.Evaluated totals)) :
    (h.tick l (l.tick reaches now totals ips).1 totals ips).Tracks
      (l.tick reaches now totals ips).1 := by
  have hindex := tick_sameIndex reaches now totals l ips
  refine ⟨hindex.tickSecs ▸ tracks.tickSecs_pos, ?_, ?_, ?_, ?_⟩
  · intro ip
    rw [tick_prevTotals]
    by_cases recorded : ip ∈ ips ∧ (l.effectivePolicy ip).isSome
    · simp only [History.tick, if_pos recorded, Option.bind_some, getLast?_record]
    · simp only [History.tick, if_neg recorded, tracks.baseline]
  · intro ip r hr
    by_cases recorded : ip ∈ ips ∧ (l.effectivePolicy ip).isSome
    · simp only [History.tick, if_pos recorded, Option.some.injEq] at hr
      subst hr
      refine ⟨⟨_, getLast?_record h ip _⟩, ?_⟩
      unfold History.record
      cases hrec : h.recordings ip with
      | none => exact le_rfl
      | some r => exact (tracks.recorded ip r hrec).2.trans (Nat.le_succ _)
    · simp only [History.tick, if_neg recorded] at hr
      obtain ⟨last, baseline⟩ := tracks.recorded ip r hr
      exact ⟨last, baseline.trans (Nat.le_succ _)⟩
  · intro flow hw
    simp only [History.tick, hw, Option.map_none]
  · intro flow w' hw'
    obtain ⟨hmem, np, hp, evaluated⟩ := hok.tick_window now totals visits hw'
    obtain ⟨secs, log, logs, measures⟩ := sample_measures tracks totals flow np
    have policed := effectivePolicy_of_dirPolicy hp
    have recordings : (h.tick l (l.tick reaches now totals ips).1 totals ips).recordings flow.1 =
        some (h.record flow.1 ((totals flow.1).getD {})) := if_pos ⟨hmem, policed⟩
    have life : (h.tick l (l.tick reaches now totals ips).1 totals ips).windows flow =
        some (((h.windows flow).getD ⟨h.ticks + 1, false⟩).seen (h.ticks + 1) w') := by
      simp only [History.tick, hw', Option.map_some]
    rw [hindex.tickSecs]
    have baseline : (h.record flow.1 ((totals flow.1).getD {})).baseline ≤ h.ticks + 1 := by
      unfold History.record
      cases hrec : h.recordings flow.1 with
      | none => exact le_rfl
      | some r => exact (tracks.recorded _ r hrec).2.trans (Nat.le_succ _)
    rcases evaluated with rfl | rfl
    · exact ⟨_, _, log, life, recordings, measures.seen baseline logs (Or.inl rfl), logs, secs⟩
    · have empty := (l.sampled totals flow np).logs_reset
      exact ⟨_, _, [], life, recordings, measures.seen baseline empty (Or.inr rfl), empty, secs⟩

theorem tracks_reload (tracks : h.Tracks l) (plan : ReloadPlan) :
    (h.reload l plan).Tracks (l.commitReload plan) := by
  have secs := (commitReload_index l plan).1
  have kept : ∀ ip r, (h.reload l plan).recordings ip = some r →
      h.recordings ip = some r := fun ip r hr => (Option.filter_eq_some_iff.mp hr).1
  refine ⟨secs ▸ tracks.tickSecs_pos, ?_, ?_, ?_, ?_⟩
  · intro ip
    rw [commitReload_prevTotals]
    simp only [History.reload, Table.retain, tracks.baseline]
    cases h.recordings ip with
    | none => rfl
    | some r =>
      cases hlast : r.totals.getLast? with
      | none => by_cases policed : ((l.commitReload plan).effectivePolicy ip).isSome <;>
          simp [hlast, policed, Option.filter]
      | some last => by_cases policed : ((l.commitReload plan).effectivePolicy ip).isSome <;>
          simp [hlast, policed, Option.filter]
  · intro ip r hr
    exact tracks.recorded ip r (kept ip r hr)
  · intro flow hw
    simp only [History.reload, hw, Option.bind_none]
  · intro flow w' hw'
    obtain ⟨⟨np, hp⟩, w, hbefore, hafter⟩ := commitReload_window hw'
    obtain ⟨life, r, log, follows⟩ := tracks.window flow w hbefore
    have recordings : (h.reload l plan).recordings flow.1 = some r := by
      simp only [History.reload, Table.retain, follows.recordings_eq, Option.filter,
        effectivePolicy_of_dirPolicy hp, if_true]
    have life_eq : (h.reload l plan).windows flow =
        some (if l.restarts plan flow then ⟨h.ticks + 1, false⟩ else life) := by
      simp only [History.reload, hw', follows.life_eq, Option.bind_some, Option.map_some]
    rw [secs]
    by_cases restarts : l.restarts plan flow = true
    · rw [if_pos restarts] at life_eq hafter
      obtain ⟨empty, hsecs⟩ := hafter
      refine ⟨_, r, [], life_eq, recordings,
        .restart (tracks.recorded _ r follows.recordings_eq).2, empty, ?_⟩
      rcases hsecs with hsecs | hsecs
      · exact hsecs.trans follows.tickSecs_eq
      · exact hsecs.trans (Nat.max_eq_left tracks.tickSecs_pos)
    · rw [if_neg restarts] at life_eq hafter
      subst hafter
      exact ⟨life, r, log, life_eq, recordings, follows.measures, follows.logs,
        follows.tickSecs_eq⟩

/-- Reverts touch neither windows nor baselines. -/
theorem tracks_revert (tracks : h.Tracks l) (action : LimitAction) :
    h.Tracks (l.revertFailedAction action) := by
  obtain ⟨windows, prevTotals⟩ := revertFailedAction_windows l action
  have secs := (revertFailedAction_sameIndex l action).tickSecs
  refine ⟨?_, ?_, tracks.recorded, ?_, ?_⟩
  · rw [secs]
    exact tracks.tickSecs_pos
  · rw [prevTotals]
    exact tracks.baseline
  · rw [windows]
    exact tracks.windowless
  · rw [windows, secs]
    exact tracks.window

/-- Over any run the history agrees with the limiter. -/
theorem Observed.tracks (obs : Observed reaches accepts l pending h) : h.Tracks l := by
  induction obs with
  | new tickSecs => exact tracks_new tickSecs
  | reload _ _ _ _ ih => exact tracks_reload ih _
  | tick now totals obs visits ih => exact tracks_tick ih obs.reachable.ok.1 now totals visits
  | revert _ _ ih => exact tracks_revert ih _

/-! ### The tick that limits a flow -/

/-- The window of a flow holds deltas between consecutive recordings and nothing else, one
for each of the ticks since the baseline and since the window was created, reset or
resized, and they reach the trigger line. -/
def FullyMeasured (l : Limiter) (h : History) (flow : FlowKey) : Prop :=
  ∃ w np life r, l.windows flow = some w ∧ l.dirPolicy flow = some np ∧
    h.windows flow = some life ∧ h.recordings flow.1 = some r ∧
    w.samples <:+ measured flow.2 r.totals ∧
    r.baseline + w.ring.length ≤ h.ticks ∧ life.started + w.ring.length ≤ h.ticks ∧
    np.triggerBps * (w.ring.length * l.tickSecs) ≤ w.samples.sum * 8

/-- The window was full before, or was last emptied by the expiry of a limit: what it holds
after one more sample starts at a tick and not before it. -/
def FullOrExpired (l : Limiter) (h : History) (flow : FlowKey) : Prop :=
  ∃ w life, l.windows flow = some w ∧ h.windows flow = some life ∧
    (w.isFull = true ∨ life.expired = true)

end Limiter

/-- The samples of a full window that has been there for longer, or since an expiry. -/
theorem Measures.samples_measured {ticks : ℕ} {dir : UInt8} {life : WindowLife} {r : Recordings}
    {log : List ℕ} {w : RollingWindow} (m : Measures ticks dir life r log) (logs : w.Logs log)
    (full : w.isFull = true) (past : w.ring.length < log.length ∨ life.expired = true) :
    w.samples <:+ measured dir r.totals ∧ life.started + w.ring.length ≤ ticks := by
  have suffix := logs.samples_suffix full
  have enough := logs.isFull_iff.mp full
  cases hlife : life.expired with
  | true =>
    obtain ⟨all, length⟩ := m.expired hlife
    exact ⟨suffix.trans all, by omega⟩
  | false =>
    have fresh := m.fresh hlife
    have longer : w.ring.length < log.length := by
      rw [hlife] at past
      simpa using past
    refine ⟨?_, by omega⟩
    rcases List.suffix_cons_iff.mp (suffix.trans m.suffix) with whole | inner
    · have size := congrArg List.length whole
      have bound := m.suffix.length_le
      rw [RollingWindow.length_samples, List.length_cons] at size
      rw [List.length_cons] at bound
      omega
    · exact inner

/-- A window that has been there for as many ticks as it has samples. -/
theorem Measures.past_of_started {ticks n : ℕ} {dir : UInt8} {life : WindowLife} {r : Recordings}
    {log : List ℕ} (m : Measures ticks dir life r log) (started : life.started + n ≤ ticks) :
    n < log.length ∨ life.expired = true := by
  cases hlife : life.expired with
  | true => exact Or.inr rfl
  | false =>
    have := m.fresh hlife
    exact Or.inl (by omega)

theorem WindowLife.seen_of_full {ticks : ℕ} {life : WindowLife} {w : RollingWindow}
    (full : w.isFull = true) : life.seen ticks w = life := by
  have size := Nat.zero_lt_of_lt w.head_lt
  have observed : w.ring.length ≤ w.observed := of_decide_eq_true full
  exact if_neg (by omega)

namespace Limiter

variable {accepts : ValidatedConfig → Prop} {l : Limiter} {pending : List LimitAction}
variable {h : History}

/-- Whether a full window has been there for longer shows in the window before its last
sample. -/
theorem full_or_expired_iff (tracks : h.Tracks l) {totals : Table UInt32 IpTotals} {flow : FlowKey}
    {np : DirPolicy} {r : Recordings} {log : List ℕ}
    (measures : Measures (h.ticks + 1) flow.2 ((h.windows flow).getD ⟨h.ticks + 1, false⟩) r log) :
    ((l.sampled totals flow np).ring.length < log.length ∨
      ((h.windows flow).getD ⟨h.ticks + 1, false⟩).expired = true) ↔
      l.FullOrExpired h flow := by
  cases hw : l.windows flow with
  | none =>
    have nothing := tracks.windowless flow hw
    rw [nothing, Option.getD_none] at measures ⊢
    have fresh : h.ticks + 1 + log.length = h.ticks + 1 + 1 := measures.fresh rfl
    have size := Nat.zero_lt_of_lt (l.sampled totals flow np).head_lt
    refine iff_of_false ?_ ?_
    · intro given
      rcases given with longer | expired
      · omega
      · cases expired
    · intro given
      obtain ⟨w, -, hsome, -⟩ := given
      rw [hw] at hsome
      cases hsome
  | some w =>
    obtain ⟨life, r₀, log₀, follows⟩ := tracks.window flow w hw
    have size : (l.sampled totals flow np).ring.length = w.ring.length := by
      rw [sampled_of_some hw, RollingWindow.length_ring_add]
    rw [follows.life_eq, Option.getD_some] at measures ⊢
    rw [size]
    have past : l.FullOrExpired h flow ↔ w.isFull = true ∨ life.expired = true := by
      constructor
      · intro given
        obtain ⟨w', life', hw', hlife', past⟩ := given
        obtain rfl := Option.some.inj (hw.symm.trans hw')
        obtain rfl := Option.some.inj (follows.life_eq.symm.trans hlife')
        exact past
      · exact fun past => ⟨w, life, hw, follows.life_eq, past⟩
    rw [past, follows.logs.isFull_iff]
    cases hlife : life.expired with
    | true => exact iff_of_true (Or.inr rfl) (Or.inr rfl)
    | false =>
      have now := measures.fresh hlife
      have before := follows.measures.fresh hlife
      refine or_congr_left ?_
      omega

/-- A tick that limits a flow has measured a whole window of it exactly when the window was
full before the tick or last emptied by an expiry: the first window that fills up after its
creation or after a reload is one interval short. -/
theorem limited_on_measured_window_iff
    (obs : Observed RollingWindow.reachesExactly accepts l pending h) (now : ℕ)
    (totals : Table UInt32 IpTotals) (ips : List UInt32) (visits : Visits ips (l.Evaluated totals))
    (flow : FlowKey) (before : ¬ l.Limited flow)
    (after : (l.tick RollingWindow.reachesExactly now totals ips).1.Limited flow) :
    (l.tick RollingWindow.reachesExactly now totals ips).1.FullyMeasured
        (h.tick l (l.tick RollingWindow.reachesExactly now totals ips).1 totals ips) flow ↔
      l.FullOrExpired h flow := by
  have tracks := obs.tracks
  have hok := obs.reachable.ok.1
  set next := (l.tick RollingWindow.reachesExactly now totals ips).1 with hnext
  have hindex : l.SameIndex next := tick_sameIndex RollingWindow.reachesExactly now totals l ips
  obtain ⟨hmem, np, hp, window, full, hover⟩ := hok.tick_limits now totals visits before after
  obtain ⟨secs, log, logs, measures⟩ := sample_measures tracks totals flow np
  have recordings : (h.tick l next totals ips).recordings flow.1 =
      some (h.record flow.1 ((totals flow.1).getD {})) :=
    if_pos ⟨hmem, effectivePolicy_of_dirPolicy hp⟩
  have life : (h.tick l next totals ips).windows flow =
      some ((h.windows flow).getD ⟨h.ticks + 1, false⟩) := by
    simp only [History.tick, hnext, window, Option.map_some,
      WindowLife.seen_of_full full]
  rw [← full_or_expired_iff tracks measures]
  constructor
  · intro given
    obtain ⟨w, -, life', -, hw, -, hlife, -, -, -, started, -⟩ := given
    obtain rfl := Option.some.inj (window.symm.trans hw)
    obtain rfl := Option.some.inj (life.symm.trans hlife)
    exact measures.past_of_started started
  · intro past
    obtain ⟨suffix, started⟩ := measures.samples_measured logs full past
    refine ⟨_, np, _, _, window, (hindex.dirPolicy flow).trans hp, life, recordings, suffix, ?_,
      started, ?_⟩
    · exact (Nat.add_le_add_right measures.baseline_le _).trans started
    · rw [hindex.tickSecs, ← secs, RollingWindow.sum_samples]
      have positive : 0 < (l.sampled totals flow np).tickSecs := secs ▸ tracks.tickSecs_pos
      exact ((logs.reachesExactly_iff full positive _).mp hover).trans
        (Nat.mul_le_mul_right 8 logs.total_le)

/-- A limiter that has just started on a policy for one address. -/
theorem startedRun_observed {cfg : ValidatedConfig} {np : DirPolicy} (accepted : cfg.Accepted)
    (planned : (new 1).planReload cfg 0 [] = .ok (indexPlan ⟨some np, none⟩)) :
    Observed RollingWindow.reachesExactly ValidatedConfig.Accepted
      ((new 1).commitReload (indexPlan ⟨some np, none⟩)) []
      (History.reload {} (new 1) (indexPlan ⟨some np, none⟩)) :=
  .reload (.new 1) accepted (visits_new 1) planned

/-- Its baseline tick. -/
theorem baselineRun_observed {cfg : ValidatedConfig} {np : DirPolicy} (accepted : cfg.Accepted)
    (planned : (new 1).planReload cfg 0 [] = .ok (indexPlan ⟨some np, none⟩)) :
    Observed RollingWindow.reachesExactly ValidatedConfig.Accepted (baselineRun np).1
      (baselineRun np).2
      ((History.reload {} (new 1) (indexPlan ⟨some np, none⟩)).tick
        ((new 1).commitReload (indexPlan ⟨some np, none⟩)) (baselineRun np).1
        (Table.empty.insert 1 {}) [1]) :=
  (startedRun_observed accepted planned).tick 0 _ ((indexPlan_knowsOnly np).visits {})

/-- The policy of one address, observed for two seconds. -/
def twoSeconds : PolicyFields := { receiveLimit with windowSecs := some 2 }

def twoSecondsOnly : DirPolicy := { receiveOnly with windowSecs := 2 }

theorem accepted_twoSeconds : (oneAddress twoSeconds).Accepted := by
  have parsed : (oneAddressFile (some { receiveLimitEntry with window := some "2s" })).parse
      (fun _ => .error "") = .ok (oneAddress twoSeconds) := rfl
  exact ValidatedConfig.accepted_of_parse parsed

/-- One interval after the baseline the window of two samples is full: the zero of the
baseline is one of them, and the flow is limited. -/
theorem limited_on_baseline_sample : ∃ l pending h totals ips,
    Observed RollingWindow.reachesExactly ValidatedConfig.Accepted l pending h ∧
    Visits ips (l.Evaluated totals) ∧ ¬ l.Limited (1, dirRx) ∧
    let next := (l.tick RollingWindow.reachesExactly 1 totals ips).1
    let h' := h.tick l next totals ips
    next.Limited (1, dirRx) ∧ ¬ next.FullyMeasured h' (1, dirRx) ∧
      (next.windows (1, dirRx)).map RollingWindow.samples = some [0, 250000] ∧
      (h'.recordings 1).map (fun r => measured dirRx r.totals) = some [250000] := by
  have known : (baselineRun twoSecondsOnly).1.KnowsOnly (1, dirRx) :=
    (indexPlan_knowsOnly twoSecondsOnly).tick 0 _ (List.nodup_singleton 1)
  refine ⟨_, _, _, Table.empty.insert 1 { rxBytes := 250000 }, [1],
    baselineRun_observed accepted_twoSeconds rfl, known.visits { rxBytes := 250000 }, ?_, ?_⟩
  · intro given
    obtain ⟨s, hs, hphase⟩ := given
    have normal : (baselineRun twoSecondsOnly).1.states (1, dirRx) = some {} := by rfl
    obtain rfl := Option.some.inj (normal.symm.trans hs)
    cases hphase
  · intro next h'
    have samples : (next.windows (1, dirRx)).map RollingWindow.samples = some [0, 250000] := by
      rfl
    have deltas : (h'.recordings 1).map (fun r => measured dirRx r.totals) = some [250000] := by
      rfl
    refine ⟨⟨_, rfl, rfl⟩, ?_, samples, deltas⟩
    intro given
    obtain ⟨w, np, life, r, hw, -, -, hr, suffix, -⟩ := given
    rw [hw, Option.map_some, Option.some.injEq] at samples
    rw [hr, Option.map_some, Option.some.injEq] at deltas
    rw [samples, deltas] at suffix
    exact absurd suffix.length_le (by decide)

/-- With a window of one sample the tick after the baseline measures all of it. -/
theorem limited_on_measured_window_iff_second :
    (limitedRun receiveOnly).1.Limited (1, dirRx) ∧
    ∃ h, (limitedRun receiveOnly).1.FullyMeasured h (1, dirRx) := by
  have known : (baselineRun receiveOnly).1.KnowsOnly (1, dirRx) :=
    (indexPlan_knowsOnly receiveOnly).tick 0 _ (List.nodup_singleton 1)
  have before : ¬ (baselineRun receiveOnly).1.Limited (1, dirRx) := by
    intro given
    obtain ⟨s, hs, hphase⟩ := given
    have normal : (baselineRun receiveOnly).1.states (1, dirRx) = some {} := by rfl
    obtain rfl := Option.some.inj (normal.symm.trans hs)
    cases hphase
  have after : (limitedRun receiveOnly).1.Limited (1, dirRx) := ⟨_, rfl, rfl⟩
  have iff := limited_on_measured_window_iff (baselineRun_observed accepted_receiveLimit rfl) 1
    (Table.empty.insert 1 { rxBytes := 125000 }) [1] (known.visits { rxBytes := 125000 })
    (1, dirRx) before after
  exact ⟨after, _, iff.mpr ⟨_, _, rfl, rfl, Or.inl rfl⟩⟩

end Limiter

end VmWatcher

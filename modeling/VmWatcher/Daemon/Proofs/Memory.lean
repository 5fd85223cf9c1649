import VmWatcher.Core.Proofs.Measured
import VmWatcher.Daemon.Collector

/-!
# What the engine keeps per address

The collector drops the totals of an address once no counter key of it is left. The
limiter drops nothing between reloads: it keeps an entry of every address with a policy
that any tick has seen traffic of. Its memory follows the live traffic only while every
such address comes back before its longest window has run out, or is LIMITED.
-/

namespace VmWatcher

namespace FlowView

variable {v : FlowView} {reaches : RollingWindow → ℕ → Bool}
variable {flow : FlowKey} {np : DirPolicy} {tickSecs delta now : ℕ}

/-- Something is kept of the flow. -/
def Held (v : FlowView) : Prop := v.window.isSome ∨ v.state.isSome ∨ v.expired.isSome

theorem held_of_state {s : DirState} (h : v.state = some s) : v.Held :=
  Or.inr (Or.inl (Option.isSome_of_eq_some h))

theorem Held.of_clear (h : ({ v with expired := none } : FlowView).Held) : v.Held := by
  rcases h with h | h | h
  · exact Or.inl h
  · exact Or.inr (Or.inl h)
  · simp at h

/-- A revert only moves what is there. -/
theorem Held.of_revert {action : LimitAction} (h : (v.revert action).Held) : v.Held := by
  cases action with
  | install ipv4 direction rateBps burstBytes algorithm windowNs =>
    simpa [Held, revert] using h
  | remove ipv4 direction =>
    cases he : v.expired with
    | none => simpa [revert, he] using h
    | some prev => exact Or.inr (Or.inr (Option.isSome_of_eq_some he))

end FlowView

namespace Limiter

variable {l : Limiter}

/-- Nothing is kept of any address. -/
structure Blank (l : Limiter) : Prop where
  windows : l.windows = Table.empty
  states : l.states = Table.empty
  expired : l.expired = Table.empty
  prevTotals : l.prevTotals = Table.empty

/-- At startup the configuration is put in force on a new limiter. -/
theorem blank_startup {tickSecs now : ℕ} {cfg : ValidatedConfig} {plan : ReloadPlan}
    (h : (new tickSecs).planReload cfg now [] = .ok plan) :
    ((new tickSecs).commitReload plan).Blank := by
  unfold planReload at h
  cases hindex : buildIndex cfg with
  | error e =>
    rw [hindex] at h
    cases h
  | ok index =>
    rw [hindex] at h
    obtain rfl := Except.ok.inj h
    exact ⟨rfl, rfl, rfl, rfl⟩

/-- The length of the ring a direction policy asks for. -/
def ringOf (l : Limiter) (flow : FlowKey) : ℕ :=
  (l.dirPolicy flow).elim 0 fun np => RollingWindow.sampleCount np.windowSecs l.tickSecs

/-- The longest ring among the direction policies of an address. -/
def longestRing (l : Limiter) (ip : UInt32) : ℕ := max (l.ringOf (ip, dirRx)) (l.ringOf (ip, dirTx))

/-- The address owns a rolling window, a baseline or a NORMAL state. -/
def Owns (l : Limiter) (ip : UInt32) : Prop :=
  (l.prevTotals ip).isSome ∨
    ∃ dir, (l.windows (ip, dir)).isSome ∨ ∃ s, l.states (ip, dir) = some s ∧ s.phase = .normal

/-- The flow is LIMITED and its time has not come. -/
def StaysLimited (l : Limiter) (flow : FlowKey) (now : ℕ) : Prop :=
  ∃ s, l.states flow = some s ∧ s.phase = .limited ∧ now < s.limitedUntil

theorem SameIndex.longestRing {l' : Limiter} (h : l.SameIndex l') (ip : UInt32) :
    l'.longestRing ip = l.longestRing ip := by
  unfold Limiter.longestRing ringOf
  rw [h.dirPolicy, h.dirPolicy, h.tickSecs]

section Tick

variable {reaches : RollingWindow → ℕ → Bool} {now : ℕ} {totals : Table UInt32 IpTotals}
variable {ips : List UInt32}

/-- A flow whose LIMITED time has not come is LIMITED after the tick. -/
theorem StaysLimited.tick {flow : FlowKey} (h : l.StaysLimited flow now) (distinct : ips.Nodup) :
    (l.tick reaches now totals ips).1.Limited flow := by
  obtain ⟨s, hs, hphase, hnow⟩ := h
  have hview := congrArg (fun r => r.1.state) (tick_flow reaches now totals l ips distinct flow)
  change (l.tick reaches now totals ips).1.states flow = _ at hview
  refine ⟨s, hview.trans ?_, hphase⟩
  by_cases hip : flow.1 ∈ ips
  · simp only [hip, if_true, flowTick]
    cases hp : ({ l with expired := Table.empty } : Limiter).dirPolicy flow with
    | none => exact hs
    | some np =>
      dsimp only
      have limited : (({ l with expired := Table.empty } : Limiter).view flow).state = some s := hs
      rw [FlowView.eval_limited limited hphase]
      simp [Nat.not_le_of_lt hnow]
  · simp only [hip, if_false]
    exact hs

/-- What a tick keeps of a flow was there before, or belongs to an address it gave a
baseline. -/
theorem held_tick {flow : FlowKey} (distinct : ips.Nodup)
    (h : ((l.tick reaches now totals ips).1.view flow).Held) :
    (l.view flow).Held ∨ flow.1 ∈ ips ∧ (l.effectivePolicy flow.1).isSome := by
  have hview := congrArg Prod.fst (tick_flow reaches now totals l ips distinct flow)
  change (l.tick reaches now totals ips).1.view flow = _ at hview
  rw [hview] at h
  by_cases hip : flow.1 ∈ ips
  · rw [if_pos hip, flowTick] at h
    cases hp : ({ l with expired := Table.empty } : Limiter).dirPolicy flow with
    | none =>
      rw [hp] at h
      exact Or.inl (FlowView.Held.of_clear h)
    | some np => exact Or.inr ⟨hip, effectivePolicy_of_dirPolicy hp⟩
  · rw [if_neg hip] at h
    exact Or.inl (FlowView.Held.of_clear h)

end Tick

end Limiter

/-- What one run of `collect_tick` is given: the maps it reads, the time of the poll, the
time of the tick, and the order it visits the addresses in. -/
structure TickInput where
  inputs : PollInputs
  polledAt : ℕ
  now : ℕ
  ips : List UInt32

/-- What the engine keeps per address, and the totals its ticks were given, latest first. -/
structure Tracking where
  collector : Collector
  limiter : Limiter
  seen : List (Table UInt32 IpTotals)

namespace Tracking

variable (reaches : RollingWindow → ℕ → Bool)

/-- The totals the poll of a tick reports. -/
def reported (s : Tracking) (i : TickInput) : Table UInt32 IpTotals :=
  (s.collector.poll i.inputs i.polledAt).2.totals

/-- `collect_tick`: a poll, and a tick on the totals it reports. -/
def collectTick (s : Tracking) (i : TickInput) : Tracking where
  collector := (s.collector.poll i.inputs i.polledAt).1
  limiter := (s.limiter.tick reaches i.now (s.reported i) i.ips).1
  seen := s.reported i :: s.seen

/-- Polls and ticks under a fixed configuration, whose failed actions are taken back in
between. Only ticks that meet the condition are taken. -/
inductive Run (meets : Tracking → TickInput → Prop) : Tracking → Prop where
  | start {l : Limiter} : l.Blank → Run meets ⟨.new, l, []⟩
  | tick {s : Tracking} {i : TickInput} : Run meets s →
      Visits i.ips (s.limiter.Evaluated (s.reported i)) → meets s i →
      Run meets (s.collectTick reaches i)
  | revert {s : Tracking} (action : LimitAction) : Run meets s →
      Run meets { s with limiter := s.limiter.revertFailedAction action }

/-- Some tick had the address in its totals. -/
def Seen (seen : List (Table UInt32 IpTotals)) (ip : UInt32) : Prop := ∃ t ∈ seen, (t ip).isSome

/-- The address is in the totals of one of the latest ticks, as many as its longest ring. -/
def Recent (l : Limiter) (seen : List (Table UInt32 IpTotals)) (ip : UInt32) : Prop :=
  Seen (seen.take (l.longestRing ip)) ip

/-- Every address that owns something has had traffic in its window, or is LIMITED. -/
def Bounded (s : Tracking) : Prop :=
  ∀ ip, s.limiter.Owns ip → Recent s.limiter s.seen ip ∨ ∃ dir, s.limiter.Limited (ip, dir)

/-- No address with a policy, once seen, is idle for a whole window at this tick, unless
it is LIMITED and stays so. -/
def NoneIdle (s : Tracking) (i : TickInput) : Prop :=
  ∀ ip, (s.limiter.effectivePolicy ip).isSome → Seen (s.reported i :: s.seen) ip →
    Recent s.limiter (s.reported i :: s.seen) ip ∨
      ∃ dir, s.limiter.StaysLimited (ip, dir) i.now

/-! ### Nothing is ever dropped -/

/-- A baseline is kept of exactly the addresses with a policy that were ever seen, and
everything else belongs to an address with a baseline. -/
structure Accounted (s : Tracking) : Prop where
  baseline : ∀ ip, (s.limiter.prevTotals ip).isSome ↔
    (s.limiter.effectivePolicy ip).isSome ∧ Seen s.seen ip
  held : ∀ flow, (s.limiter.view flow).Held → (s.limiter.prevTotals flow.1).isSome

variable {reaches} {s : Tracking} {i : TickInput}

theorem accounted_start {l : Limiter} (h : l.Blank) : Accounted ⟨.new, l, []⟩ where
  baseline ip := by simp [h.prevTotals, Seen]
  held flow hheld := by simp [Limiter.view, FlowView.Held, h.windows, h.states, h.expired] at hheld

theorem seen_cons {t : Table UInt32 IpTotals} {seen : List (Table UInt32 IpTotals)} {ip : UInt32} :
    Seen (t :: seen) ip ↔ (t ip).isSome ∨ Seen seen ip := by
  simp [Seen]

/-- An address the tick visits has traffic now, or a baseline. -/
theorem Accounted.visited (h : s.Accounted) {totals : Table UInt32 IpTotals} {ip : UInt32}
    (hip : s.limiter.Evaluated totals ip) :
    (totals ip).isSome ∨ (s.limiter.prevTotals ip).isSome := by
  rcases hip with hip | ⟨dir, hw | ⟨st, hst, -⟩⟩
  · exact Or.inl hip
  · exact Or.inr (h.held (ip, dir) (Or.inl hw))
  · exact Or.inr (h.held (ip, dir) (FlowView.held_of_state hst))

theorem Accounted.tick (h : s.Accounted)
    (visits : Visits i.ips (s.limiter.Evaluated (s.reported i))) :
    (s.collectTick reaches i).Accounted := by
  have index := Limiter.tick_sameIndex reaches i.now (s.reported i) s.limiter i.ips
  have recorded := Limiter.tick_prevTotals reaches i.now (s.reported i) s.limiter i.ips
  constructor
  · intro ip
    change ((s.limiter.tick reaches i.now (s.reported i) i.ips).1.prevTotals ip).isSome ↔
      ((s.limiter.tick reaches i.now (s.reported i) i.ips).1.effectivePolicy ip).isSome ∧
        Seen (s.reported i :: s.seen) ip
    rw [recorded ip, index.effectivePolicy, seen_cons]
    by_cases visited : ip ∈ i.ips ∧ (s.limiter.effectivePolicy ip).isSome
    · obtain ⟨hip, policed⟩ := visited
      simp only [hip, policed, and_self, if_true, Option.isSome_some, true_and, true_iff]
      apply (h.visited ((visits.mem_iff ip).mp hip)).imp_right
      exact fun hprev => ((h.baseline ip).mp hprev).2
    · rw [if_neg visited, h.baseline ip]
      constructor
      · intro given
        obtain ⟨policed, hseen⟩ := given
        exact ⟨policed, Or.inr hseen⟩
      · intro given
        obtain ⟨policed, hnow | hseen⟩ := given
        · exact absurd ⟨(visits.mem_iff ip).mpr (Or.inl hnow), policed⟩ visited
        · exact ⟨policed, hseen⟩
  · intro flow hheld
    change ((s.limiter.tick reaches i.now (s.reported i) i.ips).1.prevTotals flow.1).isSome
    rw [recorded flow.1]
    rcases Limiter.held_tick visits.nodup hheld with hold | visited
    · split
      · exact rfl
      · exact h.held flow hold
    · rw [if_pos visited]
      exact rfl

theorem Accounted.revert (h : s.Accounted) (action : LimitAction) :
    ({ s with limiter := s.limiter.revertFailedAction action } : Tracking).Accounted := by
  have same := (Limiter.revertFailedAction_windows s.limiter action).2
  constructor
  · intro ip
    dsimp only
    rw [same, (Limiter.revertFailedAction_sameIndex s.limiter action).effectivePolicy]
    exact h.baseline ip
  · intro flow hheld
    dsimp only at hheld ⊢
    rw [same]
    rw [Limiter.view_revertFailedAction] at hheld
    by_cases hflow : flow = action.flow
    · rw [if_pos hflow] at hheld
      exact h.held flow (FlowView.Held.of_revert hheld)
    · rw [if_neg hflow] at hheld
      exact h.held flow hheld

theorem Run.accounted {meets : Tracking → TickInput → Prop} (h : Run reaches meets s) :
    s.Accounted := by
  induction h with
  | start blank => exact accounted_start blank
  | tick _ visits _ ih => exact ih.tick visits
  | revert action _ ih => exact ih.revert action

/-- The addresses that own something are those with a policy that were ever seen. -/
theorem Accounted.owns_iff (h : s.Accounted) (ip : UInt32) :
    s.limiter.Owns ip ↔ (s.limiter.effectivePolicy ip).isSome ∧ Seen s.seen ip := by
  rw [← h.baseline ip]
  constructor
  · intro given
    rcases given with hprev | ⟨dir, hw | ⟨st, hst, -⟩⟩
    · exact hprev
    · exact h.held (ip, dir) (Or.inl hw)
    · exact h.held (ip, dir) (FlowView.held_of_state hst)
  · exact Or.inl

/-- The memory is bounded exactly when every address with a policy that was ever seen has
had traffic in its window, or is LIMITED. -/
theorem Accounted.bounded_iff (h : s.Accounted) :
    s.Bounded ↔ ∀ ip, (s.limiter.effectivePolicy ip).isSome → Seen s.seen ip →
      Recent s.limiter s.seen ip ∨ ∃ dir, s.limiter.Limited (ip, dir) := by
  constructor
  · intro bounded ip policed hseen
    exact bounded ip ((h.owns_iff ip).mpr ⟨policed, hseen⟩)
  · intro live ip owns
    obtain ⟨policed, hseen⟩ := (h.owns_iff ip).mp owns
    exact live ip policed hseen

/-- While no address with a policy is idle for a whole window, unless LIMITED, what the
limiter keeps is bounded by the live traffic after every tick. -/
theorem memory_bounded_by_live_traffic (h : Run reaches NoneIdle s)
    (visits : Visits i.ips (s.limiter.Evaluated (s.reported i))) (live : NoneIdle s i) :
    (s.collectTick reaches i).Bounded := by
  have index : s.limiter.SameIndex (s.collectTick reaches i).limiter :=
    Limiter.tick_sameIndex reaches i.now (s.reported i) s.limiter i.ips
  apply (h.accounted.tick visits).bounded_iff.mpr
  intro ip policed hseen
  rw [index.effectivePolicy] at policed
  rcases live ip policed hseen with recent | ⟨dir, stays⟩
  · refine Or.inl ?_
    rw [Recent, index.longestRing]
    exact recent
  · exact Or.inr ⟨dir, stays.tick visits.nodup⟩

/-! ### One address that goes away -/

open Limiter

/-- `oneAddress` has just been put in force. -/
def idleStart : Tracking := ⟨.new, (new 1).commitReload (indexPlan ⟨some receiveOnly, none⟩), []⟩

/-- No interface is there yet. -/
def beforeTap : TickInput := ⟨⟨[], [], [], false⟩, 0, 0, []⟩

/-- One frame of the address has been counted. -/
def firstFrame : TickInput :=
  ⟨⟨[(⟨1, 1⟩, { rxBytes := 100, rxPackets := 1 })], [], [], false⟩, 1, 1, [1]⟩

/-- The interface is gone, and its counter key with it. -/
def afterTap : TickInput := ⟨⟨[], [], [], false⟩, 2, 2, [1]⟩

def idleWaiting : Tracking := idleStart.collectTick RollingWindow.reachesExactly beforeTap

def idleCounted : Tracking := idleWaiting.collectTick RollingWindow.reachesExactly firstFrame

theorem idleStart_blank : idleStart.limiter.Blank := by
  have planned : (new 1).planReload (oneAddress receiveLimit) 0 [] =
      .ok (indexPlan ⟨some receiveOnly, none⟩) := rfl
  exact blank_startup planned

theorem idleStart_known : idleStart.limiter.KnowsOnly (1, dirRx) := indexPlan_knowsOnly receiveOnly

theorem idleWaiting_known : idleWaiting.limiter.KnowsOnly (1, dirRx) :=
  idleStart_known.tick 0 _ List.nodup_nil

theorem idleCounted_known : idleCounted.limiter.KnowsOnly (1, dirRx) :=
  idleWaiting_known.tick 1 _ (List.nodup_singleton 1)

theorem reported_firstFrame (ip : UInt32) :
    (idleWaiting.reported firstFrame ip).isSome ↔ ip = 1 := by
  by_cases h : ip = 1
  · subst h
    simp only [iff_true]
    rfl
  · have unmoved : (Table.empty.insert (1 : UInt32) { rxBytes := 100, rxPackets := 1 } :
        Table UInt32 Delta) ip = none := by simp [h]
    have elapsed : idleWaiting.collector.lastPoll.isSome = true := rfl
    have moved : Collector.deltas { idleWaiting.collector with lastPoll := some firstFrame.polledAt }
        firstFrame.inputs true = Table.empty.insert 1 { rxBytes := 100, rxPackets := 1 } := rfl
    have before : (idleWaiting.collector.totals.retain fun ip _ =>
        (firstFrame.inputs.cur.map Prod.fst).any fun k => k.ipv4 = ip) ip = none := rfl
    have complete : firstFrame.inputs.incomplete = false := rfl
    have unpoliced : firstFrame.inputs.curPolicer = [] := rfl
    rw [Tracking.reported, Collector.poll, Collector.applyPoll]
    simp only [elapsed, if_true, moved, unpoliced, List.foldl_nil, complete,
      Bool.false_eq_true, if_false, Collector.withDeltas, unmoved, before]
    simp [h]

theorem visits_beforeTap :
    Visits beforeTap.ips (idleStart.limiter.Evaluated (idleStart.reported beforeTap)) := by
  refine ⟨List.nodup_nil, fun ip => ⟨fun h => absurd h List.not_mem_nil, ?_⟩⟩
  intro given
  rcases given with h | ⟨dir, h | ⟨s, hs, -⟩⟩
  · cases h
  · cases h
  · cases hs

theorem visits_firstFrame :
    Visits firstFrame.ips (idleWaiting.limiter.Evaluated (idleWaiting.reported firstFrame)) :=
  idleWaiting_known.among.visits (List.nodup_singleton 1) (by simp)
    fun ip => (reported_firstFrame ip).trans List.mem_singleton.symm

theorem reported_afterTap (ip : UInt32) : idleCounted.reported afterTap ip = none := by
  have dropped : idleCounted.reported afterTap ip =
      ((idleCounted.collector.totals ip).filter fun _ => false).map IpStats.ipTotals := rfl
  rw [dropped]
  simp

theorem visits_afterTap :
    Visits afterTap.ips (idleCounted.limiter.Evaluated (idleCounted.reported afterTap)) := by
  refine ⟨List.nodup_singleton 1, ?_⟩
  intro ip
  constructor
  · intro h
    obtain rfl := List.mem_singleton.mp h
    exact Or.inr ⟨dirRx, Or.inl rfl⟩
  · intro h
    by_contra hne
    have other : ∀ dir, (ip, dir) ≠ (1, dirRx) :=
      fun dir heq => hne (List.mem_singleton.mpr (congrArg Prod.fst heq))
    rcases h with h | ⟨dir, h | ⟨s, hs, -⟩⟩
    · simp [reported_afterTap] at h
    · simp [(idleCounted_known (ip, dir) (other dir)).2.1] at h
    · simp [(idleCounted_known (ip, dir) (other dir)).2.2] at hs

theorem noneIdle_beforeTap : idleStart.NoneIdle beforeTap := by
  rintro ip - ⟨t, ht, hip⟩
  obtain rfl := List.mem_singleton.mp ht
  cases hip

theorem noneIdle_firstFrame : idleWaiting.NoneIdle firstFrame := by
  intro ip policed hseen
  rcases seen_cons.mp hseen with hnow | ⟨t, ht, hip⟩
  · obtain rfl := (reported_firstFrame ip).mp hnow
    exact Or.inl ⟨idleWaiting.reported firstFrame, List.mem_cons_self, hnow⟩
  · obtain rfl := List.mem_singleton.mp ht
    cases hip

theorem memory_bounded_by_live_traffic_first :
    (idleWaiting.collectTick RollingWindow.reachesExactly firstFrame).Bounded :=
  memory_bounded_by_live_traffic
    (.tick (.start idleStart_blank) visits_beforeTap noneIdle_beforeTap)
    visits_firstFrame noneIdle_firstFrame

/-- One tick after its key is gone the address still owns a baseline and a window: its
window is one sample long, and it is not LIMITED. -/
theorem memory_outlives_traffic :
    ∃ s i, Run RollingWindow.reachesExactly (fun _ _ => True) s ∧
      Visits i.ips (s.limiter.Evaluated (s.reported i)) ∧
      ¬ (s.collectTick RollingWindow.reachesExactly i).Bounded := by
  have reached : Run RollingWindow.reachesExactly (fun _ _ => True) idleCounted :=
    .tick (.tick (.start idleStart_blank) visits_beforeTap trivial) visits_firstFrame trivial
  refine ⟨idleCounted, afterTap, reached, visits_afterTap, ?_⟩
  intro bounded
  rcases bounded 1 (Or.inl rfl) with ⟨t, ht, hip⟩ | ⟨dir, s, hs, hphase⟩
  · obtain rfl : t = idleCounted.reported afterTap := List.mem_singleton.mp ht
    simp [reported_afterTap] at hip
  · have known : (idleCounted.collectTick RollingWindow.reachesExactly afterTap).limiter.KnowsOnly
        (1, dirRx) := idleCounted_known.tick 2 _ visits_afterTap.nodup
    by_cases hdir : dir = dirRx
    · subst hdir
      have normal : (idleCounted.collectTick RollingWindow.reachesExactly afterTap).limiter.states
          (1, dirRx) = some {} := rfl
      obtain rfl := Option.some.inj (normal.symm.trans hs)
      cases hphase
    · have other : ((1, dir) : FlowKey) ≠ (1, dirRx) := fun heq => hdir (congrArg Prod.snd heq)
      simp [(known _ other).2.2] at hs

end Tracking

end VmWatcher

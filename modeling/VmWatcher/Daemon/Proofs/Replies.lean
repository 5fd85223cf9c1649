import VmWatcher.Daemon.Proofs.InForce
import VmWatcher.Daemon.Proofs.Snapshot
import VmWatcher.Daemon.Responses

/-!
# What the replies say

A reload is followed by a tick at once, so the ranges of the latest snapshot are those of
the visible configuration, and pairing the two by their index is right. Then every row of a
reply shows the file in force and the state of the limiter.
-/

namespace VmWatcher

open Buckets Ipc Limiter OpProg

/-! ### The latest snapshot -/

/-- The snapshot shows the configured ranges and the totals of the collector. -/
def Daemon.Shown (d : Daemon) : Prop :=
  ∀ snap, d.lastSnapshot = some snap →
    List.Forall₂ (Snapshot.ShowsRange d.engine.config.showIdleIps d.collector.totals)
      d.engine.config.ipRanges snap.ranges

theorem Daemon.Shown.congr {d d' : Daemon} (h : d.Shown) (engine : d'.engine = d.engine)
    (collector : d'.collector = d.collector) (snapshot : d'.lastSnapshot = d.lastSnapshot) :
    d'.Shown := by
  intro snap hsnap
  rw [engine, collector]
  exact h snap (snapshot.symm.trans hsnap)

theorem ValidatedConfig.Accepted.ipRanges_apart {cfg : ValidatedConfig} (h : cfg.Accepted) :
    cfg.ipRanges.Pairwise IpRange.Apart := List.pairwise_map.mpr h.apart

theorem Limiter.isLimited_iff {l : Limiter} {flow : FlowKey} :
    l.isLimited flow = true ↔ l.Limited flow := by
  unfold Limiter.isLimited Limiter.state Limiter.Limited
  cases l.states flow <;> simp

theorem Limiter.not_limited_of_states {l : Limiter} {flow : FlowKey} (h : l.states flow = none) :
    ¬ l.Limited flow := by
  simp [Limited, h]

/-- A commit makes no state. -/
theorem Limiter.commitReload_states {l : Limiter} {flow : FlowKey} (plan : ReloadPlan)
    (h : l.states flow = none) : (l.commitReload plan).states flow = none := by
  have after := congrArg FlowView.state (l.commitReload_flow plan flow)
  simp only [h, Option.map_none, ite_self, Option.filter_none] at after
  exact after

/-- The LIMITED flows among all that have a state. -/
theorem Limiter.visits_filter_isLimited (l : Limiter) {flows : List FlowKey}
    (visits : Visits flows fun flow => (l.states flow).isSome) :
    Visits (flows.filter l.isLimited) l.Limited := by
  refine ⟨visits.nodup.filter _, fun flow => ?_⟩
  rw [List.mem_filter, visits.mem_iff, isLimited_iff]
  refine and_iff_right_of_imp fun h => ?_
  obtain ⟨state, hstate, -⟩ := h
  exact Option.isSome_of_eq_some hstate

/-- The rows of the overview but the last one. -/
def Daemon.configuredSummaries (env : RequestInputs) (snap : Snapshot) (d : Daemon) :
    List RangeSummary :=
  snap.ranges.mapIdx fun i rs => rangeSummary rs (((d.engine.config.ranges[i]?).map fun vr =>
    d.engine.limiter.limitedCount vr.inner.start vr.inner.stop env.flows).getD 0)

/-! ### The columns of a row -/

/-- What a row says of one direction of its address. -/
structure DirRow where
  threshold : ℕ
  limit : ℕ
  state : String
  remaining : ℕ

def Ipc.IpDetail.rx (row : IpDetail Unit) : DirRow :=
  ⟨row.rxThreshold, row.rxLimit, row.rxState, row.rxRemaining⟩

def Ipc.IpDetail.tx (row : IpDetail Unit) : DirRow :=
  ⟨row.txThreshold, row.txLimit, row.txState, row.txRemaining⟩

/-- The row has these counters. -/
structure Ipc.IpDetail.Counts (row : IpDetail Unit) (stats : IpStats) : Prop where
  rxBytes : row.rxBytes = stats.rxBytes
  txBytes : row.txBytes = stats.txBytes
  rxPackets : row.rxPackets = stats.rxPackets
  txPackets : row.txPackets = stats.txPackets
  rxDroppedBytes : row.rxDroppedBytes = stats.rxDroppedBytes
  txDroppedBytes : row.txDroppedBytes = stats.txDroppedBytes
  rxDroppedPackets : row.rxDroppedPackets = stats.rxDroppedPackets
  txDroppedPackets : row.txDroppedPackets = stats.txDroppedPackets

/-- The columns of a flow, read off the limiter. -/
def Limiter.dirRow (l : Limiter) (now : ℕ) (flow : FlowKey) : DirRow where
  threshold := ((l.dirPolicy flow).map DirPolicy.thresholdBps).getD 0
  limit := ((l.dirPolicy flow).map DirPolicy.limitBps).getD 0
  state := Daemon.stateLabel (l.isLimited flow)
  remaining := l.remainingSecs flow now

variable (d : Daemon) (env : RequestInputs) (ip : UInt32) (counters : IpStats)

theorem Daemon.ipDetail_rx :
    (d.ipDetail env ip counters).rx = d.engine.limiter.dirRow env.now (ip, dirRx) := rfl

theorem Daemon.ipDetail_tx :
    (d.ipDetail env ip counters).tx = d.engine.limiter.dirRow env.now (ip, dirTx) := rfl

theorem Daemon.ipDetail_counts : (d.ipDetail env ip counters).Counts counters :=
  ⟨rfl, rfl, rfl, rfl, rfl, rfl, rfl, rfl⟩

/-- A column of the rows, added up as a `u64`. -/
theorem Daemon.sum_ipDetail {column : IpDetail Unit → ℕ} {counter : IpStats → ℕ}
    (same : ∀ ip stats, column (d.ipDetail env ip stats) = counter stats)
    (rows : List (UInt32 × IpStats)) :
    (rows.map fun row => counter row.2).sum % 2 ^ 64 =
      ((rows.map fun row => d.ipDetail env row.1 row.2).map column).sum % 2 ^ 64 := by
  simp only [List.map_map, Function.comp_def, same]

theorem Daemon.stateLabel_eq_limited {limited : Bool} :
    stateLabel limited = "LIMITED" ↔ limited = true := by
  cases limited <;> simp [stateLabel]

theorem Daemon.stateLabel_eq_normal {limited : Bool} :
    stateLabel limited = "NORMAL" ↔ limited = false := by
  cases limited <;> simp [stateLabel]

namespace Node

variable {p : Parsers} {path : String} {reaches : RollingWindow → ℕ → Bool} {host : ByteOrder}
variable {s s' : Node}

theorem Sound.collect_shown (h : s.Sound p path reaches) (tick : s.Collects reaches host s') :
    s'.daemon.Shown := by
  obtain ⟨env, limiter, failures, evs, fits, -, result⟩ := tick.inv
  rw [result]
  intro snap hsnap
  obtain rfl := Option.some.inj hsnap
  exact Snapshot.ofTotals_shows h.accepted.ipRanges_apart fits.rows

theorem Reachable.shown (h : s.Reachable p path reaches host) : s.daemon.Shown := by
  induction h with
  | start run =>
    obtain ⟨bytes, cfg, plan, -, result, -⟩ := Daemon.start_inv run
    rw [result]
    exact nofun
  | step prior step ih =>
    cases step with
    | packet packet => exact ih
    | collect tick => exact prior.sound.collect_shown tick
    | ignore fits run =>
      rcases reloadFile_inv run with ⟨ok, error, -, result, -, -, -⟩ |
        ⟨bytes, cfg, plan, r, evs', -, -, -, ⟨-, done, -⟩ | ⟨e, report, -, -, result⟩⟩
      · exact ih.congr (by rw [result, Daemon.noted_engine])
          (by rw [result, Daemon.noted_collector]) (by rw [result, Daemon.noted_lastSnapshot])
      · cases done
      · exact ih.congr (by rw [result, Daemon.noted_engine])
          (by rw [result, Daemon.noted_collector]) (by rw [result, Daemon.noted_lastSnapshot])
    | reload fits run tick => exact (prior.sound.reload fits run).collect_shown tick
    | watcherError e => exact ih
    | rescan scan =>
      cases scan with
      | none => exact ih
      | some found => exact ih

/-- No flow is LIMITED before the first tick. -/
theorem Reachable.unlimited (h : s.Reachable p path reaches host)
    (unpolled : s.daemon.lastSnapshot = none) (flow : FlowKey) :
    ¬ s.daemon.engine.limiter.Limited flow := by
  have polled {s s' : Node} (tick : s.Collects reaches host s') :
      s'.daemon.lastSnapshot ≠ none := by
    obtain ⟨env, limiter, failures, evs, -, -, result⟩ := tick.inv
    rw [result]
    exact nofun
  induction h with
  | start run =>
    obtain ⟨bytes, cfg, plan, -, result, -⟩ := Daemon.start_inv run
    rw [result]
    have fresh : (Limiter.new (cfg.refreshIntervalMs / 1000)).states flow = none := rfl
    exact Limiter.not_limited_of_states (Limiter.commitReload_states plan fresh)
  | step prior step ih =>
    cases step with
    | packet packet => exact ih unpolled
    | collect tick => exact absurd unpolled (polled tick)
    | ignore fits run =>
      rcases reloadFile_inv run with ⟨ok, error, -, result, -, -, -⟩ |
        ⟨bytes, cfg, plan, r, evs', -, -, -, ⟨-, done, -⟩ | ⟨e, report, -, -, result⟩⟩
      · rw [result, Daemon.noted_lastSnapshot] at unpolled
        rw [result, Daemon.noted_engine]
        exact ih unpolled
      · cases done
      · rw [result, Daemon.noted_lastSnapshot] at unpolled
        rw [result, Daemon.noted_engine]
        exact ih unpolled
    | reload fits run tick => exact absurd unpolled (polled tick)
    | watcherError e => exact ih unpolled
    | rescan scan =>
      cases scan with
      | none => exact ih unpolled
      | some found => exact ih unpolled

/-! ### The overview -/

/-- What the row of a range says, when these flows are LIMITED. -/
structure SummaryShows (limited : List FlowKey) (vr : ValidatedRange) (row : RangeSummary) :
    Prop where
  name : row.name = vr.inner.name
  range : row.range = vr.inner.display
  limited : row.limited = limited.countP fun flow => vr.inner.contains flow.1

theorem SummaryShows.limited_eq {limited : List FlowKey} {ranges : List ValidatedRange}
    {rows : List RangeSummary} (h : List.Forall₂ (SummaryShows limited) ranges rows) :
    rows.map RangeSummary.limited =
      ranges.map fun vr => limited.countP fun flow => vr.inner.contains flow.1 := by
  induction h with
  | nil => rfl
  | cons head _ ih => rw [List.map_cons, List.map_cons, ih, head.limited]

theorem Sound.limited_once (h : s.Sound p path reaches) {flow : FlowKey}
    (limited : s.daemon.engine.limiter.Limited flow) :
    s.daemon.engine.config.ranges.countP (fun vr => vr.inner.contains flow.1) = 1 := by
  obtain ⟨policy, enforced⟩ := Option.isSome_iff_exists.mp ((h.ok.limited_iff flow).mp limited)
  obtain ⟨vr, hvr, inside, -⟩ := (h.enforced_iff.mp enforced).2
  have present : 0 < s.daemon.engine.config.ranges.countP fun vr => vr.inner.contains flow.1 :=
    List.countP_pos_iff.mpr ⟨vr, hvr, inside⟩
  have single : s.daemon.engine.config.ranges.countP (fun vr => vr.inner.contains flow.1) ≤ 1 :=
    countP_le_one h.accepted.apart fun a b apart => apart flow.1
  omega

theorem Reachable.summaries_show (h : s.Reachable p path reaches host) (env : RequestInputs)
    {snap : Snapshot} (hsnap : s.daemon.lastSnapshot = some snap) :
    List.Forall₂ (SummaryShows (env.flows.filter s.daemon.engine.limiter.isLimited))
      s.daemon.engine.config.ranges (s.daemon.configuredSummaries env snap) := by
  refine forall₂_iff_getElem?.mpr fun i => ?_
  have shown := forall₂_iff_getElem?.mp (h.shown snap hsnap) i
  rw [Daemon.configuredSummaries, List.getElem?_mapIdx]
  rw [ValidatedConfig.ipRanges, List.getElem?_map] at shown
  cases hvr : s.daemon.engine.config.ranges[i]? with
  | none =>
    rw [hvr] at shown
    cases hrs : snap.ranges[i]? with
    | none => exact .none
    | some rs =>
      rw [hrs] at shown
      cases shown
  | some vr =>
    rw [hvr] at shown
    cases hrs : snap.ranges[i]? with
    | none =>
      rw [hrs] at shown
      cases shown
    | some rs =>
      rw [hrs] at shown
      cases shown with
      | some shows =>
        refine .some ⟨shows.name, shows.display, ?_⟩
        simp only [Daemon.rangeSummary, Option.map_some, Option.getD_some, Limiter.limitedCount,
          List.countP_filter]
        refine List.countP_congr fun flow _ => ?_
        simp only [IpRange.contains, Bool.and_eq_true, and_assoc, and_comm]

/-- Every LIMITED flow is in exactly one configured range, and the counts of the overview add
up to the number of LIMITED flows. Before the first tick it has no ranges; from then on these
are the configured ones, each with its LIMITED flows, and one for IPv6. -/
theorem overview_counts_limited (h : s.Reachable p path reaches host) (env : RequestInputs)
    (flows : Visits env.flows fun flow => (s.daemon.engine.limiter.states flow).isSome) :
    ∃ limited, Visits limited s.daemon.engine.limiter.Limited ∧
      (∀ flow ∈ limited,
        s.daemon.engine.config.ranges.countP (fun vr => vr.inner.contains flow.1) = 1) ∧
      ((s.daemon.buildStatus env).ranges.map RangeSummary.limited).sum = limited.length ∧
      (s.daemon.lastSnapshot = none → (s.daemon.buildStatus env).ranges = []) ∧
      (s.daemon.lastSnapshot.isSome → ∃ rows, (s.daemon.buildStatus env).ranges =
          rows ++ [Daemon.ipv6Summary s.daemon.lastIpv6] ∧
        List.Forall₂ (SummaryShows limited) s.daemon.engine.config.ranges rows) := by
  have visits := s.daemon.engine.limiter.visits_filter_isLimited flows
  have once : ∀ flow ∈ env.flows.filter s.daemon.engine.limiter.isLimited,
      s.daemon.engine.config.ranges.countP (fun vr => vr.inner.contains flow.1) = 1 :=
    fun flow hflow => h.sound.limited_once ((visits.mem_iff flow).mp hflow)
  refine ⟨_, visits, once, ?_⟩
  cases hsnap : s.daemon.lastSnapshot with
  | none =>
    have empty : (s.daemon.buildStatus env).ranges = [] := by
      simp only [Daemon.buildStatus, Daemon.rangeSummaries, hsnap]
    have unlimited : env.flows.filter s.daemon.engine.limiter.isLimited = [] :=
      List.eq_nil_iff_forall_not_mem.mpr fun flow hflow =>
        h.unlimited hsnap flow ((visits.mem_iff flow).mp hflow)
    rw [empty, unlimited]
    exact ⟨rfl, fun _ => rfl, nofun⟩
  | some snap =>
    have rows := h.summaries_show env hsnap
    have ranges : (s.daemon.buildStatus env).ranges =
        s.daemon.configuredSummaries env snap ++ [Daemon.ipv6Summary s.daemon.lastIpv6] := by
      simp only [Daemon.buildStatus, Daemon.rangeSummaries, hsnap, Daemon.configuredSummaries]
    refine ⟨?_, nofun, fun _ => ⟨_, ranges, rows⟩⟩
    rw [ranges, List.map_append, List.sum_append, SummaryShows.limited_eq rows,
      sum_countP_eq_length once]
    rfl

theorem overview_counts_limited_one : ∃ s : Node,
    s.Reachable (.ofFile oneAddressText (oneAddressFile (some receiveLimitEntry))) "config.toml"
      RollingWindow.reachesExactly .little ∧
    ((s.daemon.buildStatus ⟨3, [(1, dirRx)], [], {}⟩).ranges.map RangeSummary.limited).sum = 1 := by
  obtain ⟨s, reached, engine, -⟩ := limited_reachable oneAddressText "config.toml" .little
  have flows : Visits [(1, dirRx)] fun flow => (s.daemon.engine.limiter.states flow).isSome := by
    rw [engine]
    refine ⟨List.nodup_singleton _, fun flow => ?_⟩
    by_cases own : flow = (1, dirRx)
    · rw [own]
      obtain ⟨state, hstate, -⟩ := exceededTick_limited
      simp [hstate]
    · simp [own, (exceededTick_knowsOnly flow own).2.2]
  obtain ⟨limited, visits, -, counted, -⟩ :=
    overview_counts_limited reached ⟨3, [(1, dirRx)], [], {}⟩ flows
  refine ⟨s, reached, ?_⟩
  have perm : limited.Perm [(1, dirRx)] := by
    rw [engine] at visits
    exact visits.perm (exceededTick_knowsOnly.visits_limited exceededTick_limited)
  rw [counted, perm.length_eq, List.length_singleton]

/-! ### The detail of a range -/

/-- What the columns of a flow say. -/
structure DirShows (s : Node) (now : ℕ) (flow : FlowKey) (row : DirRow) : Prop where
  assigned : ∀ policy, s.daemon.engine.config.Assigns flow policy →
    row.threshold = policy.thresholdBps ∧ row.limit = policy.limitBps
  unassigned : (∀ policy, ¬ s.daemon.engine.config.Assigns flow policy) →
    row.threshold = 0 ∧ row.limit = 0
  limited : row.state = "LIMITED" ↔ s.daemon.engine.limiter.Limited flow
  normal : row.state = "NORMAL" ↔ ¬ s.daemon.engine.limiter.Limited flow
  /-- A LIMITED flow has what is left of the duration the file asks for. -/
  remaining : ∀ state policy, s.daemon.engine.limiter.states flow = some state →
    state.phase = .limited → s.daemon.engine.config.Assigns flow policy →
    row.remaining = u64SaturatingAdd state.limitedSince policy.limitDurationSecs - now
  recovered : ¬ s.daemon.engine.limiter.Limited flow → row.remaining = 0
  /-- Unless the dataplane is degraded, LIMITED flows are armed, with the limit shown. -/
  armed : s.daemon.rollbackHealth.degraded = false →
    (row.state = "LIMITED" ↔ (s.maps.policies (limitKey flow)).isSome) ∧
    ∀ entry, s.maps.policies (limitKey flow) = some entry → entry.rateBps = row.limit

theorem Sound.shows (h : s.Sound p path reaches) (now : ℕ) (flow : FlowKey) :
    s.DirShows now flow (s.daemon.engine.limiter.dirRow now flow) := by
  have label : (s.daemon.engine.limiter.dirRow now flow).state = "LIMITED" ↔
      s.daemon.engine.limiter.Limited flow := by
    rw [dirRow, Daemon.stateLabel_eq_limited, isLimited_iff]
  have columns {policy : DirPolicy} (assigned : s.daemon.engine.config.Assigns flow policy) :
      (s.daemon.engine.limiter.dirRow now flow).threshold = policy.thresholdBps ∧
        (s.daemon.engine.limiter.dirRow now flow).limit = policy.limitBps := by
    simp [dirRow, h.dirPolicy_iff.mpr assigned]
  constructor
  · intro policy assigned
    exact columns assigned
  · intro unassigned
    have unknown : s.daemon.engine.limiter.dirPolicy flow = none :=
      Option.eq_none_iff_forall_ne_some.mpr fun policy known =>
        unassigned policy (h.dirPolicy_iff.mp known)
    simp [dirRow, unknown]
  · exact label
  · rw [dirRow, Daemon.stateLabel_eq_normal, ← isLimited_iff, Bool.not_eq_true]
  · intro state policy hstate phase assigned
    obtain ⟨policy', known, enforces⟩ := (h.ok flow).limited state hstate phase
    obtain rfl := Option.some.inj ((h.dirPolicy_iff.mpr assigned).symm.trans known)
    simp [dirRow, remainingSecs, Limiter.state, hstate, phase, enforces.limitedUntil]
  · intro recovered
    rw [← isLimited_iff, isLimited, decide_eq_true_iff] at recovered
    rw [dirRow, remainingSecs, if_pos recovered]
  · intro clean
    refine ⟨label.trans ⟨fun limited => ?_, fun armed => ?_⟩, fun entry armed => ?_⟩
    · obtain ⟨policy, enforced⟩ := Option.isSome_iff_exists.mp ((h.ok.limited_iff flow).mp limited)
      have armed := (h.armed_iff clean).mpr ⟨policy, limited, (h.enforced_iff.mp enforced).2, rfl⟩
      exact Option.isSome_of_eq_some armed
    · obtain ⟨entry, armed⟩ := Option.isSome_iff_exists.mp armed
      exact h.armed_limited armed
    · obtain ⟨policy, -, assigned, rfl⟩ := (h.armed_iff clean).mp armed
      exact (columns assigned).2.symm

/-- What the detail of a range says. Its totals are sums of `u64`. -/
structure DetailShows (s : Node) (now : ℕ) (vr : ValidatedRange) (detail : Ipc.RangeDetail Unit) :
    Prop where
  name : detail.name = vr.inner.name
  range : detail.range = vr.inner.display
  nodup : (detail.ips.map IpDetail.ip).Nodup
  mem_iff : ∀ ip, ip ∈ detail.ips.map IpDetail.ip ↔ vr.inner.contains ip = true ∧
    ((s.daemon.collector.totals ip).isSome ∨
      s.daemon.engine.config.showIdleIps = true ∧ vr.inner.len ≤ idleEnumCap)
  counts : ∀ row ∈ detail.ips, row.Counts ((s.daemon.collector.totals row.ip).getD {})
  rx : ∀ row ∈ detail.ips, s.DirShows now (row.ip, dirRx) row.rx
  tx : ∀ row ∈ detail.ips, s.DirShows now (row.ip, dirTx) row.tx
  rxBytes : detail.rxBytes = (detail.ips.map IpDetail.rxBytes).sum % 2 ^ 64
  txBytes : detail.txBytes = (detail.ips.map IpDetail.txBytes).sum % 2 ^ 64
  rxDroppedBytes : detail.rxDroppedBytes = (detail.ips.map IpDetail.rxDroppedBytes).sum % 2 ^ 64
  txDroppedBytes : detail.txDroppedBytes = (detail.ips.map IpDetail.txDroppedBytes).sum % 2 ^ 64
  rxDroppedPackets : detail.rxDroppedPackets = (detail.ips.map IpDetail.rxDroppedPackets).sum % 2 ^ 64
  txDroppedPackets : detail.txDroppedPackets = (detail.ips.map IpDetail.txDroppedPackets).sum % 2 ^ 64

/-- The detail of a range the snapshot shows. -/
theorem Sound.detail_shows (h : s.Sound p path reaches) (env : RequestInputs) {snap : Snapshot}
    (hsnap : s.daemon.lastSnapshot = some snap) {index : ℕ} {vr : ValidatedRange}
    {rs : RangeStats} (hrs : snap.ranges[index]? = some rs)
    (shows : Snapshot.ShowsRange s.daemon.engine.config.showIdleIps s.daemon.collector.totals
      vr.inner rs) :
    ∃ detail, s.daemon.buildRangeDetail env index = some detail ∧
      s.DetailShows env.now vr detail := by
  refine ⟨_, by simp only [Daemon.buildRangeDetail, hsnap, hrs, Option.bind_eq_bind,
    Option.bind_some, Option.pure_def]; rfl, ?_⟩
  have ips : (rs.ips.map fun row => s.daemon.ipDetail env row.1 row.2).map IpDetail.ip =
      rs.ips.map Prod.fst := List.map_map
  constructor
  · exact shows.name
  · exact shows.display
  · exact ips ▸ shows.nodup
  · intro ip
    rw [ips, List.mem_map]
    constructor
    · intro listed
      obtain ⟨⟨_, stats⟩, row, rfl⟩ := listed
      obtain ⟨inside, observed | ⟨-, -, idle⟩⟩ := (shows.rows _ stats).mp row
      · exact ⟨inside, .inl (Option.isSome_of_eq_some observed)⟩
      · exact ⟨inside, .inr idle⟩
    · intro shown
      obtain ⟨inside, shown⟩ := shown
      cases htotals : s.daemon.collector.totals ip with
      | some stats => exact ⟨(ip, stats), (shows.rows ip stats).mpr ⟨inside, .inl htotals⟩, rfl⟩
      | none =>
        have idle := shown.resolve_left (by simp [htotals])
        exact ⟨(ip, {}), (shows.rows ip {}).mpr ⟨inside, .inr ⟨htotals, rfl, idle⟩⟩, rfl⟩
  · intro row hrow
    obtain ⟨⟨ip, stats⟩, listed, rfl⟩ := List.mem_map.mp hrow
    have own : (s.daemon.collector.totals ip).getD {} = stats := by
      obtain ⟨-, observed | ⟨absent, rfl, -⟩⟩ := (shows.rows ip stats).mp listed
      · rw [observed, Option.getD_some]
      · rw [absent, Option.getD_none]
    exact own.symm ▸ s.daemon.ipDetail_counts env ip stats
  · intro row hrow
    obtain ⟨⟨ip, stats⟩, -, rfl⟩ := List.mem_map.mp hrow
    rw [Daemon.ipDetail_rx]
    exact h.shows env.now (ip, dirRx)
  · intro row hrow
    obtain ⟨⟨ip, stats⟩, -, rfl⟩ := List.mem_map.mp hrow
    rw [Daemon.ipDetail_tx]
    exact h.shows env.now (ip, dirTx)
  · exact shows.addsUp.rxBytes.trans (s.daemon.sum_ipDetail env (fun _ _ => rfl) rs.ips)
  · exact shows.addsUp.txBytes.trans (s.daemon.sum_ipDetail env (fun _ _ => rfl) rs.ips)
  · exact shows.addsUp.rxDroppedBytes.trans (s.daemon.sum_ipDetail env (fun _ _ => rfl) rs.ips)
  · exact shows.addsUp.txDroppedBytes.trans (s.daemon.sum_ipDetail env (fun _ _ => rfl) rs.ips)
  · exact shows.addsUp.rxDroppedPackets.trans (s.daemon.sum_ipDetail env (fun _ _ => rfl) rs.ips)
  · exact shows.addsUp.txDroppedPackets.trans (s.daemon.sum_ipDetail env (fun _ _ => rfl) rs.ips)

/-- From the first tick on, a request for the detail of a configured range is answered with
the policies of the file, the states of the limiter and the counters of the collector; any
other request for a detail is refused. -/
theorem detail_shows_file (h : s.Reachable p path reaches host) (env : RequestInputs)
    (index : ℕ) :
    (s.daemon.lastSnapshot.isSome →
      ∀ vr, s.daemon.engine.config.ranges[index]? = some vr → ∃ detail,
        s.daemon.handleRequest env (.rangeDetail index) = .rangeDetail detail ∧
          s.DetailShows env.now vr detail) ∧
    (s.daemon.lastSnapshot = none ∨ s.daemon.engine.config.ranges.length ≤ index →
      s.daemon.handleRequest env (.rangeDetail index) =
        .error s!"range index {index} out of bounds") := by
  cases hsnap : s.daemon.lastSnapshot with
  | none =>
    refine ⟨nofun, fun _ => ?_⟩
    simp [Daemon.handleRequest, Daemon.buildRangeDetail, hsnap]
  | some snap =>
  have shown := forall₂_iff_getElem?.mp (h.shown snap hsnap) index
  rw [ValidatedConfig.ipRanges, List.getElem?_map] at shown
  constructor
  · intro _ vr hvr
    rw [hvr] at shown
    cases hrs : snap.ranges[index]? with
    | none =>
      rw [hrs] at shown
      cases shown
    | some rs =>
      rw [hrs] at shown
      cases shown with
      | some shows =>
        obtain ⟨detail, built, answers⟩ := h.sound.detail_shows env hsnap hrs shows
        exact ⟨detail, by rw [Daemon.handleRequest, built], answers⟩
  · intro outside
    rw [List.getElem?_eq_none (outside.resolve_left nofun)] at shown
    cases hrs : snap.ranges[index]? with
    | none => simp [Daemon.handleRequest, Daemon.buildRangeDetail, hsnap, hrs]
    | some rs =>
      rw [hrs] at shown
      cases shown

theorem detail_shows_file_limited : ∃ (s : Node) (detail : Ipc.RangeDetail Unit),
    s.Reachable (.ofFile oneAddressText (oneAddressFile (some receiveLimitEntry))) "config.toml"
      RollingWindow.reachesExactly .little ∧
    s.daemon.handleRequest ⟨3, [(1, dirRx)], [], {}⟩ (.rangeDetail 0) = .rangeDetail detail ∧
    ∃ row ∈ detail.ips, row.ip = 1 ∧ row.rxState = "LIMITED" := by
  obtain ⟨s, reached, engine, -, -, collector, polled, -⟩ :=
    limited_reachable oneAddressText "config.toml" .little
  obtain ⟨answered, -⟩ := detail_shows_file reached ⟨3, [(1, dirRx)], [], {}⟩ 0
  obtain ⟨detail, reply, shows⟩ := answered polled _ (by rw [engine]; rfl)
  have listed : (1 : UInt32) ∈ detail.ips.map IpDetail.ip := by
    rw [shows.mem_iff, collector]
    exact ⟨rfl, .inl rfl⟩
  obtain ⟨row, hrow, own⟩ := List.mem_map.mp listed
  refine ⟨s, detail, reached, reply, row, hrow, own, (shows.rx row hrow).limited.mpr ?_⟩
  rw [own, engine]
  exact exceededTick_limited

end Node

end VmWatcher

import VmWatcher.Daemon.Metering
import VmWatcher.Daemon.Proofs.Traffic
import VmWatcher.Misc.Buckets

/-!
# What the counters add up to

Between two handlers of the daemon the classifiers count what passes the TAPs. Each packet
of a whitelisted address is counted once in its traffic entry, and if its flow is LIMITED
once more: as passed, as dropped or as too long to be policed. The counters wrap, so what they
add up to is known modulo 2^64.
-/

namespace VmWatcher

open Limiter

/-- The counters of an oversized entry. -/
inductive OversizedCounter where
  | packets
  | bytes
  deriving DecidableEq

instance : Tally OversizedStats OversizedCounter where
  zero := {}
  get v
    | .packets => v.packets
    | .bytes => v.bytes
  get_zero := by rintro ⟨⟩ <;> rfl

/-! ### What one packet adds -/

theorem u64Add_modEq (x y : ℕ) : u64Add x y ≡ x + y [MOD 2 ^ 64] := Nat.mod_modEq _ _

/-- What a packet adds to the counters of its traffic entry. -/
def TrafficValue.amount (isTx : Bool) (len : ℕ) : TrafficCounter → ℕ
  | .rxBytes => if isTx then 0 else len
  | .txBytes => if isTx then len else 0
  | .rxPackets => if isTx then 0 else 1
  | .txPackets => if isTx then 1 else 0

theorem TrafficValue.of_count (value : Option TrafficValue) (isTx : Bool) (len : ℕ)
    (c : TrafficCounter) :
    Tally.get ((value.getD {}).count isTx len) c ≡
      Tally.of value c + amount isTx len c [MOD 2 ^ 64] := by
  cases isTx <;> cases c <;> first | exact u64Add_modEq _ _ | rfl

/-- What a verdict adds to the counters of the flow. -/
def PolicerStats.amount (k : Packet) (conform : Bool) : PolicerCounter → ℕ
  | .passedBytes => if conform then k.len else 0
  | .passedPackets => if conform then 1 else 0
  | .droppedBytes => if conform then 0 else k.len
  | .droppedPackets => if conform then 0 else 1

theorem PolicerStats.of_record (stats : Option PolicerStats) (k : Packet) (conform : Bool)
    (c : PolicerCounter) :
    Tally.get ((stats.getD ⟨0, 0, 0, 0⟩).record conform k.len) c ≡
      Tally.of stats c + amount k conform c [MOD 2 ^ 64] := by
  cases conform <;> cases c <;> first | exact u64Add_modEq _ _ | rfl

/-- What an oversized packet adds to the counters of its direction. -/
def OversizedStats.amount (len : ℕ) : OversizedCounter → ℕ
  | .packets => 1
  | .bytes => len

theorem OversizedStats.of_record (stats : Option OversizedStats) (len : ℕ)
    (c : OversizedCounter) :
    Tally.get ((stats.getD {}).record len) c ≡ Tally.of stats c + amount len c [MOD 2 ^ 64] := by
  cases c <;> exact u64Add_modEq _ _

namespace Arrival

open Classical in
/-- What an arrival adds to a traffic entry. -/
noncomputable def counted (key : TrafficKey) (c : TrafficCounter) (a : Arrival) : ℕ :=
  if a.ctx.Flow a.isTx key.ipv4 ∧ a.ctx.ifindex = key.ifindex then
    TrafficValue.amount a.isTx a.ctx.len.toNat c
  else 0

/-- The packet is too long to be policed, and its flow is one of these. -/
structure TooLong (limited : FlowKey → Prop) (a : Arrival) : Prop where
  limited : ∃ ipv4, a.ctx.Flow a.isTx ipv4 ∧ limited (ipv4, directionOf a.isTx)
  long : maxPolicedLen < a.ctx.len.toNat

open Classical in
/-- What an arrival adds to the oversized entry of a direction. -/
noncomputable def oversized (limited : FlowKey → Prop) (direction : UInt8) (c : OversizedCounter)
    (a : Arrival) : ℕ :=
  if a.TooLong limited ∧ directionOf a.isTx = direction then
    OversizedStats.amount a.ctx.len.toNat c
  else 0

end Arrival

namespace EbpfMaps

variable {host : ByteOrder} {m : EbpfMaps} {flow : FlowKey} {policy : LimitPolicy} {a : Arrival}

/-! ### One packet at a classifier -/

theorem classifier_counters (host : ByteOrder) (m : EbpfMaps) (a : Arrival)
    (room : a.inserts = .succeed) (key : TrafficKey) :
    (m.limits.monitors host key.ipv4 → ∀ c,
      Tally.of ((classifier host m a).1.counters.traffic key) c ≡
        Tally.of (m.counters.traffic key) c + a.counted key c [MOD 2 ^ 64]) ∧
    (¬ m.limits.monitors host key.ipv4 →
      (classifier host m a).1.counters.traffic key = m.counters.traffic key) := by
  rcases classifier_cases host m a with
    ⟨ipv4, carries, monitored, result⟩ | ⟨other, traffic6, result⟩
  · have counters : (classifier host m a).1.counters =
        m.counters.count ⟨a.ctx.ifindex, ipv4⟩ a.isTx a.ctx.len.toNat := by
      rw [result]
      dsimp only
      rw [police_counters, room, count_succeed]
    rw [counters]
    by_cases same : key = ⟨a.ctx.ifindex, ipv4⟩
    · refine ⟨fun _ c => ?_, fun other => absurd (same ▸ monitored) other⟩
      have entry : (m.counters.count ⟨a.ctx.ifindex, ipv4⟩ a.isTx a.ctx.len.toNat).traffic
          ⟨a.ctx.ifindex, ipv4⟩ = some _ := Table.insert_self
      rw [Arrival.counted, same, if_pos ⟨carries, rfl⟩, entry]
      exact TrafficValue.of_count _ _ _ c
    · have still : (m.counters.count ⟨a.ctx.ifindex, ipv4⟩ a.isTx a.ctx.len.toNat).traffic key =
          m.counters.traffic key := Table.insert_of_ne same
      refine ⟨fun _ c => ?_, fun _ => still⟩
      have none : ¬ (a.ctx.Flow a.isTx key.ipv4 ∧ a.ctx.ifindex = key.ifindex) := by
        intro both
        exact same (congrArg₂ TrafficKey.mk both.2.symm (both.1.unique carries))
      rw [still, Arrival.counted, if_neg none, Nat.add_zero]
  · have still : (classifier host m a).1.counters.traffic key = m.counters.traffic key := by
      rw [result]
    refine ⟨fun hit c => ?_, fun _ => still⟩
    rw [still, Arrival.counted, if_neg fun both => other _ both.1 hit, Nat.add_zero]

theorem police_stats_other (key : LimitKey) {inserts : Inserts} {ipv4 : UInt32}
    {direction : UInt8} {lenBytes now : ℕ}
    (other : (⟨ipv4, direction⟩ : LimitKey) = key → ¬ (⟨now, lenBytes⟩ : Packet).Policed) :
    (m.police inserts ipv4 direction lenBytes now).1.limits.policerStats key =
      m.limits.policerStats key := by
  rcases police_cases inserts ipv4 direction lenBytes now m with
    ⟨policy, judges, -, result⟩ | ⟨-, result⟩ | ⟨-, result⟩
  · have hne : key ≠ ⟨ipv4, direction⟩ := fun same => other same.symm judges.policed
    rw [result, judged]
    dsimp only [recordVerdict]
    split
    · cases artifactOf policy.algorithm <;> rfl
    · cases artifactOf policy.algorithm <;> exact Table.insert_of_ne hne
  · rw [result]
    exact congrArg (fun d => Dataplane.policerStats d key) recordOversized_limits
  · rw [result]

/-- The verdict on a packet of an armed flow goes into the counters of the flow. -/
theorem Armed.recorded (h : m.Armed host flow policy)
    (windowed : policy.algorithm = algoSlidingWindowLog → policy.windowNs ≠ 0)
    (room : a.inserts = .succeed) {k : Packet} (hk : a.policedBy flow = some k) :
    (VmWatcher.classifier host m a).1.limits.policerStats (limitKey flow) =
      some (((m.limits.policerStats (limitKey flow)).getD ⟨0, 0, 0, 0⟩).record
        (policer policeArtifacts policy (m.limits.artifacts (limitKey flow)) k).2 k.len) := by
  obtain ⟨own, policed, rfl⟩ := Arrival.policedBy_eq_some_iff.mp hk
  have counted := count_armed h a.inserts a.ctx a.isTx
  have judges : (m.count a.inserts a.ctx flow.1 a.isTx).limits.Judges ⟨flow.1, flow.2⟩ policy
      a.ctx.len.toNat := ⟨counted.installed, counted.enabled, counted.rate, policed⟩
  rw [classifier_of own h.monitored]
  dsimp only
  rw [police_of_judges judges, if_pos ⟨windowed, counted.artifact⟩, judged, room]
  dsimp only [recordVerdict, Inserts.succeed]
  rw [entryOrInsert_true]
  cases artifactOf policy.algorithm <;> simp [Dataplane.store, limitKey, policer]

/-- Other packets leave them alone. -/
theorem stats_still (ha : a.policedBy flow = none) :
    (classifier host m a).1.limits.policerStats (limitKey flow) =
      m.limits.policerStats (limitKey flow) :=
  classifier_still (fun d => d.policerStats (limitKey flow))
    (fun _ _ _ _ _ other => police_stats_other _ other) ha

/-! ### Packets too long to be policed -/

/-- Exactly these flows are armed. -/
structure Arms (host : ByteOrder) (limited : FlowKey → Prop) (m : EbpfMaps) : Prop where
  armed : ∀ flow, limited flow → ∃ policy, m.Armed host flow policy
  unarmed : ∀ flow, ¬ limited flow → m.limits.policies (limitKey flow) = none

variable {limited : FlowKey → Prop}

theorem Arms.classifier (h : m.Arms host limited) (a : Arrival) :
    (classifier host m a).1.Arms host limited := by
  constructor
  · intro flow limited
    obtain ⟨policy, armed⟩ := h.armed flow limited
    exact ⟨policy, armed.classifier a⟩
  · intro flow unlimited
    have shape := congrArg (fun σ => (σ.flow (limitKey flow)).policy) (classifier_shape host m a)
    exact shape.trans (h.unarmed flow unlimited)

theorem police_oversized_still {inserts : Inserts} {ipv4 : UInt32} {direction : UInt8}
    {lenBytes now : ℕ} (fits : lenBytes ≤ maxPolicedLen) :
    (m.police inserts ipv4 direction lenBytes now).1.oversized = m.oversized := by
  rcases police_cases inserts ipv4 direction lenBytes now m with
    ⟨policy, -, -, result⟩ | ⟨big, -⟩ | ⟨-, result⟩
  · rw [result, judged]
    dsimp only [recordVerdict]
    split <;> rfl
  · exact absurd fits (Nat.not_le.mpr big)
  · rw [result]

@[simp] theorem count_oversized (inserts : Inserts) (ctx : TcContext) (ipv4 : UInt32) (isTx : Bool) :
    (m.count inserts ctx ipv4 isTx).oversized = m.oversized := by
  unfold count
  dsimp only
  split <;> rfl

theorem recordOversized_succeed (direction : UInt8) (lenBytes : ℕ) :
    m.recordOversized .succeed direction lenBytes = { m with
      oversized := m.oversized.insert direction
        (((m.oversized direction).getD {}).record lenBytes) } := by
  simp only [recordOversized, Inserts.succeed, entryOrInsert_true]

theorem Arms.oversized (h : m.Arms host limited) (room : a.inserts = .succeed)
    (direction : UInt8) (c : OversizedCounter) :
    Tally.of ((VmWatcher.classifier host m a).1.oversized direction) c ≡
      Tally.of (m.oversized direction) c + a.oversized limited direction c [MOD 2 ^ 64] := by
  rcases classifier_cases host m a with ⟨ipv4, carries, -, result⟩ | ⟨other, traffic6, result⟩
  · rw [result]
    dsimp only
    by_cases long : a.TooLong limited
    · obtain ⟨⟨ipv4', carries', limited⟩, long'⟩ := long
      obtain rfl := carries.unique carries'
      obtain ⟨policy, armed⟩ := h.armed _ limited
      have counted := count_armed armed a.inserts a.ctx a.isTx
      rw [police_oversized counted.installed counted.enabled counted.rate long', room,
        recordOversized_succeed]
      dsimp only
      rw [count_oversized]
      by_cases same : directionOf a.isTx = direction
      · rw [Arrival.oversized, if_pos ⟨⟨⟨_, carries, limited⟩, long'⟩, same⟩, same,
          Table.insert_self]
        exact OversizedStats.of_record _ _ c
      · rw [Arrival.oversized, if_neg fun both => same both.2, Table.insert_of_ne (Ne.symm same),
          Nat.add_zero]
    · rw [Arrival.oversized, if_neg fun both => long both.1, Nat.add_zero]
      by_cases fits : a.ctx.len.toNat ≤ maxPolicedLen
      · rw [police_oversized_still fits, count_oversized]
      · have unlimited : ¬ limited (ipv4, directionOf a.isTx) :=
          fun limited => long ⟨⟨ipv4, carries, limited⟩, Nat.not_le.mp fits⟩
        have none : (m.count a.inserts a.ctx ipv4 a.isTx).limits.policies
            ⟨ipv4, directionOf a.isTx⟩ = none := by
          rw [count_limits]
          exact h.unarmed _ unlimited
        rw [police_unarmed (by rw [none]; exact nofun), count_oversized]
  · have short : ¬ a.TooLong limited := by
      intro long
      obtain ⟨ipv4, carries, limited⟩ := long.limited
      obtain ⟨policy, armed⟩ := h.armed _ limited
      exact other ipv4 carries armed.monitored
    rw [Arrival.oversized, if_neg fun both => short both.1, Nat.add_zero, result]

/-! ### Any traffic -/

/-- Every packet of a whitelisted address is counted in its entry, and no other. -/
theorem traffic_stateAfter (xs : List Arrival) (room : ∀ a ∈ xs, a.inserts = .succeed)
    (key : TrafficKey) :
    (m.limits.monitors host key.ipv4 → ∀ c,
      Tally.of (((classifier host).stateAfter m xs).counters.traffic key) c ≡
        Tally.of (m.counters.traffic key) c + (xs.map (Arrival.counted key c)).sum
          [MOD 2 ^ 64]) ∧
    (¬ m.limits.monitors host key.ipv4 →
      ((classifier host).stateAfter m xs).counters.traffic key = m.counters.traffic key) := by
  constructor
  · intro monitored c
    have keeps : ∀ m (a : Arrival), m.limits.monitors host key.ipv4 → a.inserts = .succeed →
        (classifier host m a).1.limits.monitors host key.ipv4 := fun m a monitored _ =>
      (monitors_congr (classifier_shape host m a) _).mpr monitored
    have adds : ∀ m (a : Arrival), m.limits.monitors host key.ipv4 → a.inserts = .succeed →
        Tally.of ((classifier host m a).1.counters.traffic key) c ≡
          Tally.of (m.counters.traffic key) c + a.counted key c [MOD 2 ^ 64] := fun m a monitored room =>
      (classifier_counters host m a room key).1 monitored c
    exact Mealy.total_stateAfter (fun m => Tally.of (m.counters.traffic key) c) keeps adds xs m
      monitored room
  · intro other
    have keeps : ∀ m' (a : Arrival), (¬ m'.limits.monitors host key.ipv4 ∧
        m'.counters.traffic key = m.counters.traffic key) → a.inserts = .succeed →
        ¬ (classifier host m' a).1.limits.monitors host key.ipv4 ∧
          (classifier host m' a).1.counters.traffic key = m.counters.traffic key := by
      intro m' a inv room
      refine ⟨fun hit => inv.1 ?_, ?_⟩
      · exact (monitors_congr (classifier_shape host m' a) _).mp hit
      · exact ((classifier_counters host m' a room key).2 inv.1).trans inv.2
    exact (Mealy.stateAfter_keeps keeps xs m ⟨other, rfl⟩ room).2

/-- Every packet of an armed flow that is too long is counted in its direction. -/
theorem Arms.oversized_stateAfter (h : m.Arms host limited) (xs : List Arrival)
    (room : ∀ a ∈ xs, a.inserts = .succeed) (direction : UInt8) (c : OversizedCounter) :
    Tally.of (((VmWatcher.classifier host).stateAfter m xs).oversized direction) c ≡
      Tally.of (m.oversized direction) c +
        (xs.map (Arrival.oversized limited direction c)).sum [MOD 2 ^ 64] :=
  Mealy.total_stateAfter (fun m => Tally.of (m.oversized direction) c)
    (fun _ a arms _ => arms.classifier a) (fun _ _ arms room => arms.oversized room direction c) xs m h room

theorem stats_unarmed_still (h : m.limits.policies (limitKey flow) = none) (a : Arrival) :
    (VmWatcher.classifier host m a).1.limits.policerStats (limitKey flow) =
      m.limits.policerStats (limitKey flow) := by
  cases ha : a.policedBy flow with
  | none => exact stats_still ha
  | some k =>
    obtain ⟨own, -⟩ := Arrival.policedBy_eq_some_iff.mp ha
    rcases classifier_cases host m a with ⟨ipv4, carries, -, result⟩ | ⟨-, traffic6, result⟩
    · have same : (ipv4, directionOf a.isTx) = flow := Arrival.Of.unique ⟨carries, rfl⟩ own
      subst same
      have counted : (m.count a.inserts a.ctx ipv4 a.isTx).limits = m.limits :=
        count_limits a.ctx a.isTx
      have unarmed : (m.count a.inserts a.ctx ipv4 a.isTx).limits.policies
          ⟨ipv4, directionOf a.isTx⟩ = none := by
        rw [counted]
        exact h
      rw [result, police_unarmed (by rw [unarmed]; exact nofun)]
      exact congrArg (fun d => Dataplane.policerStats d (limitKey _)) counted
    · rw [result]

/-- The counters of a flow that is not armed stay. -/
theorem stats_unarmed (h : m.limits.policies (limitKey flow) = none) (xs : List Arrival) :
    ((VmWatcher.classifier host).stateAfter m xs).limits.policerStats (limitKey flow) =
      m.limits.policerStats (limitKey flow) := by
  have keeps : ∀ m' (a : Arrival), (m'.limits.policies (limitKey flow) = none ∧
      m'.limits.policerStats (limitKey flow) = m.limits.policerStats (limitKey flow)) → True →
      (VmWatcher.classifier host m' a).1.limits.policies (limitKey flow) = none ∧
        (VmWatcher.classifier host m' a).1.limits.policerStats (limitKey flow) =
          m.limits.policerStats (limitKey flow) := by
    intro m' a inv _
    have shape := congrArg (fun σ => (σ.flow (limitKey flow)).policy) (classifier_shape host m' a)
    exact ⟨shape.trans inv.1, (stats_unarmed_still inv.1 a).trans inv.2⟩
  exact (Mealy.stateAfter_keeps keeps xs m ⟨h, rfl⟩ fun _ _ => trivial).2

/-- The policer of a flow with the counters its verdicts go into. -/
def recording (policy : LimitPolicy) :
    Mealy (StateArtifacts × Option PolicerStats) Packet Bool := fun s k =>
  let r := policer policeArtifacts policy s.1 k
  ((r.1, some ((s.2.getD ⟨0, 0, 0, 0⟩).record r.2 k.len)), r.2)

/-- The packets of a run of the policer, with their verdicts. -/
def judgements (policy : LimitPolicy) (s : StateArtifacts) (ks : List Packet) :
    List (Packet × Bool) :=
  ks.zip ((policer policeArtifacts policy).outputs s ks)

theorem recording_stateAfter (policy : LimitPolicy) (s : StateArtifacts)
    (stats : Option PolicerStats) (ks : List Packet) (c : PolicerCounter) :
    Tally.of ((recording policy).stateAfter (s, stats) ks).2 c ≡ Tally.of stats c +
      ((judgements policy s ks).map fun j => PolicerStats.amount j.1 j.2 c).sum [MOD 2 ^ 64] := by
  induction ks generalizing s stats with
  | nil => rfl
  | cons k ks ih =>
    have first := PolicerStats.of_record stats k (policer policeArtifacts policy s k).2 c
    have rest := ih (policer policeArtifacts policy s k).1
      (some ((stats.getD ⟨0, 0, 0, 0⟩).record (policer policeArtifacts policy s k).2 k.len))
    simp only [judgements, Mealy.outputs_cons, List.zip_cons_cons, List.map_cons, List.sum_cons]
    rw [← Nat.add_assoc]
    exact rest.trans (first.add_right _)

/-- The verdicts on the packets of an armed flow go into its counters. -/
theorem Armed.stats_stateAfter (h : m.Armed host flow policy)
    (windowed : policy.algorithm = algoSlidingWindowLog → policy.windowNs ≠ 0)
    (xs : List Arrival) (room : ∀ a ∈ xs, a.inserts = .succeed) (c : PolicerCounter) :
    Tally.of (((VmWatcher.classifier host).stateAfter m xs).limits.policerStats
        (limitKey flow)) c ≡ Tally.of (m.limits.policerStats (limitKey flow)) c +
      ((judgements policy (m.limits.artifacts (limitKey flow))
        (xs.filterMap (Arrival.policedBy flow))).map fun j =>
          PolicerStats.amount j.1 j.2 c).sum [MOD 2 ^ 64] := by
  let view : EbpfMaps → StateArtifacts × Option PolicerStats := fun m =>
    (m.limits.artifacts (limitKey flow), m.limits.policerStats (limitKey flow))
  have run : view ((VmWatcher.classifier host).stateAfter m xs) =
      (recording policy).stateAfter (view m) (xs.filterMap (Arrival.policedBy flow)) := by
    refine Mealy.stateAfter_of_component view (Arrival.policedBy flow) ?_ ?_ ?_ xs m h room
    · intro m a h _
      exact h.classifier a
    · intro m a k h room hk
      exact Prod.ext (h.moved hk).1 (h.recorded windowed room hk)
    · intro m a _ _ ha
      exact Prod.ext (artifacts_still ha) (stats_still ha)
  have stats := congrArg Prod.snd run
  dsimp only [view] at stats
  rw [stats]
  exact recording_stateAfter _ _ _ _ c

end EbpfMaps

/-! ### Between two handlers of the daemon -/

namespace Node

variable {p : Parsers} {path : String} {reaches : RollingWindow → ℕ → Bool} {host : ByteOrder}
variable {s : Node}

/-- The window of an installed policy is not empty. -/
theorem windowed_installed {policy : DirPolicy} (bounded : policy.Bounded) :
    policy.installed.algorithm = algoSlidingWindowLog → policy.installed.windowNs ≠ 0 := by
  intro ring
  have window : isWindowAlgo policy.algorithm := by
    have same : policy.algorithm = algoSlidingWindowLog := ring
    simp [isWindowAlgo, same]
  obtain ⟨-, least, -⟩ := bounded.windowed window
  have positive : 1 ≤ policy.limitWindowSecs := least
  rw [bounded.windowNs_installed]
  omega

theorem Sound.arms (h : s.Sound p path reaches) (clean : s.daemon.rollbackHealth.degraded = false)
    (counters : Counters) (oversized : Table UInt8 OversizedStats) :
    EbpfMaps.Arms host s.daemon.engine.limiter.Limited ⟨s.maps, counters, oversized⟩ := by
  constructor
  · intro flow limited
    obtain ⟨policy, assigned⟩ := h.exists_assigned limited
    exact ⟨_, h.armed clean limited assigned counters oversized⟩
  · intro flow unlimited
    by_contra present
    obtain ⟨entry, armed⟩ := Option.ne_none_iff_exists'.mp present
    exact unlimited (h.armed_limited armed)

/-- Between two handlers every packet of an address in a configured range is counted in the
entry of its TAP and its address, with its length, and no packet is counted anywhere else. -/
theorem traffic_counted_by_file (h : s.Reachable p path reaches host)
    (clean : s.daemon.rollbackHealth.degraded = false) (counters : Counters)
    (oversized : Table UInt8 OversizedStats) (xs : List Arrival)
    (room : ∀ a ∈ xs, a.inserts = .succeed) (key : TrafficKey) :
    let after := (classifier host).stateAfter ⟨s.maps, counters, oversized⟩ xs
    (s.daemon.engine.config.covers key.ipv4 → ∀ c,
      Tally.of (after.counters.traffic key) c ≡
        Tally.of (counters.traffic key) c + (xs.map (Arrival.counted key c)).sum [MOD 2 ^ 64]) ∧
    (¬ s.daemon.engine.config.covers key.ipv4 →
      after.counters.traffic key = counters.traffic key) := by
  have monitors := Dataplane.monitors_iff_covers host (h.sound.filled clean) key.ipv4
  have counted := @EbpfMaps.traffic_stateAfter host ⟨s.maps, counters, oversized⟩ xs room key
  exact ⟨fun covered => counted.1 (monitors.mpr covered),
    fun outside => counted.2 fun hit => outside (monitors.mp hit)⟩

theorem traffic_counted_by_file_one : ∃ s : Node,
    s.Reachable (.ofFile oneAddressText (oneAddressFile (some receiveLimitEntry))) "config.toml"
      RollingWindow.reachesExactly .little ∧
    Tally.of (((classifier .little).stateAfter ⟨s.maps, {}, Table.empty⟩
      [packetToOne 60, packetToOne 40]).counters.traffic ⟨3, 1⟩) TrafficCounter.rxBytes ≡
      100 [MOD 2 ^ 64] := by
  obtain ⟨s, reached, clean, config, -⟩ := receiveLimit_reachable
  have room : ∀ a ∈ [packetToOne 60, packetToOne 40], a.inserts = .succeed := by
    simp [packetToOne]
  obtain ⟨counted, -⟩ := traffic_counted_by_file reached clean {} Table.empty _ room ⟨3, 1⟩
  have covered : s.daemon.engine.config.covers 1 := by
    rw [config]
    exact ⟨_, List.mem_singleton.mpr rfl, rfl⟩
  have each : ∀ len, (packetToOne len).counted ⟨3, 1⟩ .rxBytes = len.toNat := fun len =>
    if_pos ⟨packetToOne_flow len, rfl⟩
  refine ⟨s, reached, (counted covered .rxBytes).trans ?_⟩
  simp only [List.map_cons, List.map_nil, each]
  rfl

/-- Between two handlers every packet of a LIMITED flow that the policy of the file judges is
counted with the verdict on it, every one that is too long to be judged in its direction, and
the packets of other flows nowhere. -/
theorem verdicts_counted_by_file (h : s.Reachable p path reaches host)
    (clean : s.daemon.rollbackHealth.degraded = false) (counters : Counters)
    (oversized : Table UInt8 OversizedStats) (xs : List Arrival)
    (room : ∀ a ∈ xs, a.inserts = .succeed) :
    let after := (classifier host).stateAfter ⟨s.maps, counters, oversized⟩ xs
    (∀ flow policy, s.daemon.engine.limiter.Limited flow →
      s.daemon.engine.config.Assigns flow policy → ∀ c,
        Tally.of (after.limits.policerStats (limitKey flow)) c ≡
          Tally.of (s.maps.policerStats (limitKey flow)) c +
            ((EbpfMaps.judgements policy.installed (s.maps.artifacts (limitKey flow))
              (xs.filterMap (Arrival.policedBy flow))).map fun j =>
                PolicerStats.amount j.1 j.2 c).sum [MOD 2 ^ 64]) ∧
    (∀ flow, ¬ s.daemon.engine.limiter.Limited flow →
      after.limits.policerStats (limitKey flow) = s.maps.policerStats (limitKey flow)) ∧
    (∀ direction c, Tally.of (after.oversized direction) c ≡ Tally.of (oversized direction) c +
      (xs.map (Arrival.oversized s.daemon.engine.limiter.Limited direction c)).sum
        [MOD 2 ^ 64]) := by
  have sound := h.sound
  have arms : EbpfMaps.Arms host _ _ := sound.arms clean counters oversized
  refine ⟨?_, ?_, ?_⟩
  · intro flow policy limited assigned c
    exact (sound.armed clean limited assigned counters oversized).stats_stateAfter
      (windowed_installed (sound.bounded assigned)) xs room c
  · intro flow unlimited
    exact EbpfMaps.stats_unarmed (arms.unarmed flow unlimited) xs
  · intro direction c
    exact arms.oversized_stateAfter xs room direction c

theorem verdicts_counted_by_file_each : ∃ s : Node,
    s.Reachable (.ofFile oneAddressText (oneAddressFile (some receiveLimitEntry))) "config.toml"
      RollingWindow.reachesExactly .little ∧
    let after := (classifier .little).stateAfter ⟨s.maps, {}, Table.empty⟩
      [packetToOne 65535, packetToOne 60000, packetToOne 70000]
    Tally.of (after.limits.policerStats (limitKey (1, dirRx))) PolicerCounter.passedBytes ≡
      65535 [MOD 2 ^ 64] ∧
    Tally.of (after.limits.policerStats (limitKey (1, dirRx))) PolicerCounter.droppedBytes ≡
      60000 [MOD 2 ^ 64] ∧
    after.limits.policerStats (limitKey (2, dirRx)) = none ∧
    Tally.of (after.oversized dirRx) OversizedCounter.bytes ≡ 70000 [MOD 2 ^ 64] := by
  obtain ⟨s, reached, clean, config, limited, unlimited, fresh, uncounted⟩ :=
    receiveLimit_reachable
  have room : ∀ a ∈ [packetToOne 65535, packetToOne 60000, packetToOne 70000],
      a.inserts = .succeed := by
    simp [packetToOne]
  obtain ⟨judged, others, oversized⟩ :=
    verdicts_counted_by_file reached clean {} Table.empty _ room
  have counted := judged (1, dirRx) receiveOnly limited (config ▸ oneAddress_assigns)
  have first : (packetToOne 65535).policedBy (1, dirRx) = some ⟨0, 65535⟩ :=
    packetToOne_policedBy (by decide) (by decide)
  have second : (packetToOne 60000).policedBy (1, dirRx) = some ⟨0, 60000⟩ :=
    packetToOne_policedBy (by decide) (by decide)
  have third : (packetToOne 70000).policedBy (1, dirRx) = none :=
    if_neg fun both => absurd both.2.2 (by decide)
  rw [fresh, uncounted, List.filterMap_cons_some first, List.filterMap_cons_some second,
    List.filterMap_cons_none third] at counted
  refine ⟨s, reached, counted .passedBytes, counted .droppedBytes, ?_, ?_⟩
  · rw [others _ (unlimited (2, dirRx) (by decide)), uncounted]
    rfl
  · have long : (packetToOne 70000).TooLong s.daemon.engine.limiter.Limited :=
      ⟨⟨1, packetToOne_flow _, limited⟩, by decide⟩
    have short : ∀ len : UInt32, len.toNat ≤ maxPolicedLen →
        (packetToOne len).oversized s.daemon.engine.limiter.Limited dirRx .bytes = 0 :=
      fun len fits => if_neg fun both => absurd both.1.long (Nat.not_lt.mpr fits)
    have counted := oversized dirRx .bytes
    rw [List.map_cons, List.map_cons, List.map_singleton, short 65535 (by decide),
      short 60000 (by decide), Arrival.oversized, if_pos ⟨long, rfl⟩] at counted
    exact counted

/-! ### Bytes in and bytes accounted for -/

section Conservation

variable {ipv4 : UInt32} {isTx : Bool}

open Classical in
/-- The bytes of a packet of the flow whose length is such. -/
noncomputable def flowBytes (flow : FlowKey) (such : ℕ → Prop) (a : Arrival) : ℕ :=
  if a.Of flow ∧ such a.ctx.len.toNat then a.ctx.len.toNat else 0

theorem directionOf_inj {b b' : Bool} (h : directionOf b = directionOf b') : b = b' := by
  cases b <;> cases b' <;> first | rfl | exact absurd h (by decide)

theorem amount_byteCounter (b b' : Bool) (len : ℕ) :
    TrafficValue.amount b len (byteCounter b') = if b = b' then len else 0 := by
  cases b <;> cases b' <;> rfl

theorem sum_map_modEq {α : Type} {n : ℕ} {f g : α → ℕ} {xs : List α}
    (h : ∀ x ∈ xs, f x ≡ g x [MOD n]) : (xs.map f).sum ≡ (xs.map g).sum [MOD n] := by
  induction xs with
  | nil => rfl
  | cons x xs ih =>
    obtain ⟨hx, hxs⟩ := List.forall_mem_cons.mp h
    exact hx.add (ih hxs)

/-- A packet is counted at one TAP. -/
theorem sum_counted_taps {taps : List UInt32} (nodup : taps.Nodup) {a : Arrival}
    (among : a.Of (ipv4, directionOf isTx) → a.ctx.ifindex ∈ taps) :
    (taps.map fun tap => a.counted ⟨tap, ipv4⟩ (byteCounter isTx)).sum =
      flowBytes (ipv4, directionOf isTx) (fun _ => True) a := by
  by_cases own : a.Of (ipv4, directionOf isTx)
  · obtain rfl : a.isTx = isTx := directionOf_inj own.2
    have once := List.sum_map_eq_nsmul_single a.ctx.ifindex
      (fun tap => a.counted ⟨tap, ipv4⟩ (byteCounter a.isTx)) (l := taps) fun tap ne _ => by
        simp [Arrival.counted, Ne.symm ne]
    rw [once, List.count_eq_one_of_mem nodup (among own), one_nsmul, flowBytes,
      if_pos ⟨own, trivial⟩, Arrival.counted, if_pos ⟨own.1, rfl⟩, amount_byteCounter, if_pos rfl]
  · have none : ∀ tap, a.counted ⟨tap, ipv4⟩ (byteCounter isTx) = 0 := by
      intro tap
      unfold Arrival.counted
      split
      · rename_i carries
        have other : a.isTx ≠ isTx := fun same => own ⟨carries.1, congrArg directionOf same⟩
        rw [amount_byteCounter, if_neg other]
      · rfl
    simp [none, flowBytes, own]

/-- What is counted of a flow at all its TAPs is what comes of it. -/
theorem sum_traffic_taps {taps : List UInt32} (nodup : taps.Nodup) {xs : List Arrival}
    (among : ∀ a ∈ xs, a.Of (ipv4, directionOf isTx) → a.ctx.ifindex ∈ taps) :
    (taps.map fun tap => (xs.map (Arrival.counted ⟨tap, ipv4⟩ (byteCounter isTx))).sum).sum =
      (xs.map (flowBytes (ipv4, directionOf isTx) fun _ => True)).sum := by
  rw [Buckets.sum_map_comm fun tap a => Arrival.counted ⟨tap, ipv4⟩ (byteCounter isTx) a]
  congr 1
  exact List.map_congr_left fun a ha => sum_counted_taps nodup (among a ha)

/-- A verdict counts the bytes of its packet as passed or as dropped. -/
theorem sum_judgements (policy : LimitPolicy) (st : StateArtifacts) (ks : List Packet) :
    ((EbpfMaps.judgements policy st ks).map fun j =>
        PolicerStats.amount j.1 j.2 .passedBytes).sum +
      ((EbpfMaps.judgements policy st ks).map fun j =>
        PolicerStats.amount j.1 j.2 .droppedBytes).sum = (ks.map Packet.len).sum := by
  induction ks generalizing st with
  | nil => rfl
  | cons k ks ih =>
    have rest := ih (policer policeArtifacts policy st k).1
    have first : PolicerStats.amount k (policer policeArtifacts policy st k).2 .passedBytes +
        PolicerStats.amount k (policer policeArtifacts policy st k).2 .droppedBytes = k.len := by
      cases (policer policeArtifacts policy st k).2 <;> simp [PolicerStats.amount]
    simp only [EbpfMaps.judgements, Mealy.outputs_cons, List.zip_cons_cons, List.map_cons,
      List.sum_cons] at rest ⊢
    omega

theorem sum_policedBy (flow : FlowKey) (xs : List Arrival) :
    ((xs.filterMap (Arrival.policedBy flow)).map Packet.len).sum +
        (xs.map (flowBytes flow (maxPolicedLen < ·))).sum =
      (xs.map (flowBytes flow fun _ => True)).sum := by
  induction xs with
  | nil => rfl
  | cons a xs ih =>
    simp only [List.map_cons, List.sum_cons]
    cases ha : a.policedBy flow with
    | none =>
      have same : flowBytes flow (maxPolicedLen < ·) a = flowBytes flow (fun _ => True) a := by
        unfold flowBytes
        by_cases own : a.Of flow
        · -- one that is not policed is too long or empty
          have out : ¬ (⟨a.now, a.ctx.len.toNat⟩ : Packet).Policed := by
            intro policed
            rw [Arrival.policedBy_eq_some_iff.mpr ⟨own, policed, rfl⟩] at ha
            cases ha
          simp only [Packet.Policed, not_and, Nat.not_le] at out
          by_cases long : maxPolicedLen < a.ctx.len.toNat
          · simp [own, long]
          · have empty : a.ctx.len.toNat = 0 := by
              by_contra some_len
              exact long (out (Nat.pos_of_ne_zero some_len))
            simp [own, empty]
        · simp [own]
      rw [List.filterMap_cons_none ha, same]
      omega
    | some k =>
      obtain ⟨own, policed, rfl⟩ := Arrival.policedBy_eq_some_iff.mp ha
      have short : ¬ maxPolicedLen < a.ctx.len.toNat := Nat.not_lt.mpr policed.2
      rw [List.filterMap_cons_some ha]
      simp only [List.map_cons, List.sum_cons, flowBytes, own, short, and_false, true_and, if_true,
        if_false]
      omega

/-- Between two handlers every byte of a LIMITED flow that is counted at a TAP is counted as
passed, as dropped or as part of a packet too long to be policed, and none of them twice. -/
theorem metered_bytes_accounted (h : s.Reachable p path reaches host)
    (clean : s.daemon.rollbackHealth.degraded = false) (counters : Counters)
    (oversized : Table UInt8 OversizedStats) (xs : List Arrival)
    (room : ∀ a ∈ xs, a.inserts = .succeed)
    (limited : s.daemon.engine.limiter.Limited (ipv4, directionOf isTx))
    {taps : List UInt32} (nodup : taps.Nodup)
    (among : ∀ a ∈ xs, a.Of (ipv4, directionOf isTx) → a.ctx.ifindex ∈ taps) :
    let flow : FlowKey := (ipv4, directionOf isTx)
    let after := (classifier host).stateAfter ⟨s.maps, counters, oversized⟩ xs
    (taps.map fun tap => Tally.of (after.counters.traffic ⟨tap, ipv4⟩) (byteCounter isTx)).sum +
        (Tally.of (s.maps.policerStats (limitKey flow)) PolicerCounter.passedBytes +
          Tally.of (s.maps.policerStats (limitKey flow)) PolicerCounter.droppedBytes) ≡
      (taps.map fun tap => Tally.of (counters.traffic ⟨tap, ipv4⟩) (byteCounter isTx)).sum +
        (Tally.of (after.limits.policerStats (limitKey flow)) PolicerCounter.passedBytes +
          Tally.of (after.limits.policerStats (limitKey flow)) PolicerCounter.droppedBytes) +
        (xs.map (flowBytes flow (maxPolicedLen < ·))).sum [MOD 2 ^ 64] := by
  intro flow after
  have sound := h.sound
  obtain ⟨policy, assigned⟩ := sound.exists_assigned limited
  have armed : EbpfMaps.Armed host flow policy.installed ⟨s.maps, counters, oversized⟩ :=
    sound.armed clean limited assigned counters oversized
  have windowed := windowed_installed (sound.bounded assigned)
  have traffic : ∀ tap ∈ taps, Tally.of (after.counters.traffic ⟨tap, ipv4⟩) (byteCounter isTx) ≡
      Tally.of (counters.traffic ⟨tap, ipv4⟩) (byteCounter isTx) +
        (xs.map (Arrival.counted ⟨tap, ipv4⟩ (byteCounter isTx))).sum [MOD 2 ^ 64] := fun tap _ =>
    (EbpfMaps.traffic_stateAfter xs room ⟨tap, ipv4⟩).1 armed.monitored _
  have metered := sum_map_modEq traffic
  rw [List.sum_map_add, sum_traffic_taps nodup among] at metered
  have verdicts : ∀ c, Tally.of (after.limits.policerStats (limitKey flow)) c ≡
      Tally.of (s.maps.policerStats (limitKey flow)) c +
        ((EbpfMaps.judgements policy.installed (s.maps.artifacts (limitKey flow))
          (xs.filterMap (Arrival.policedBy flow))).map fun j =>
            PolicerStats.amount j.1 j.2 c).sum [MOD 2 ^ 64] :=
    armed.stats_stateAfter windowed xs room
  have judged := sum_judgements policy.installed (s.maps.artifacts (limitKey flow))
    (xs.filterMap (Arrival.policedBy flow))
  have all := sum_policedBy flow xs
  -- what the counters say of the packets is said twice over, of all and of their verdicts
  refine (metered.add_right _).trans (.trans ?_
    ((((verdicts .passedBytes).add (verdicts .droppedBytes)).symm.add_left _).add_right _))
  rw [← all, ← judged]
  exact congrArg (· % 2 ^ 64) (by omega)

end Conservation

theorem metered_bytes_accounted_one : ∃ s : Node,
    s.Reachable (.ofFile oneAddressText (oneAddressFile (some receiveLimitEntry))) "config.toml"
      RollingWindow.reachesExactly .little ∧
    let after := (classifier .little).stateAfter ⟨s.maps, {}, Table.empty⟩
      [packetToOne 60, packetToOne 70000]
    Tally.of (after.counters.traffic ⟨3, 1⟩) TrafficCounter.rxBytes ≡
      Tally.of (after.limits.policerStats (limitKey (1, dirRx))) PolicerCounter.passedBytes +
        Tally.of (after.limits.policerStats (limitKey (1, dirRx))) PolicerCounter.droppedBytes +
        70000 [MOD 2 ^ 64] := by
  obtain ⟨s, reached, clean, -, limited, -, -, uncounted⟩ := receiveLimit_reachable
  have room : ∀ a ∈ [packetToOne 60, packetToOne 70000], a.inserts = .succeed := by
    simp [packetToOne]
  have accounted := metered_bytes_accounted reached clean {} Table.empty _ room
    (show s.daemon.engine.limiter.Limited (1, directionOf false) from limited)
    (List.nodup_singleton 3) (by simp [packetToOne])
  have short : flowBytes (1, directionOf false) (maxPolicedLen < ·) (packetToOne 60) = 0 :=
    if_neg fun long => absurd long.2 (by decide)
  have long : flowBytes (1, directionOf false) (maxPolicedLen < ·) (packetToOne 70000) = 70000 :=
    if_pos ⟨⟨packetToOne_flow _, rfl⟩, by decide⟩
  have none : ∀ c, Tally.of (s.maps.policerStats (limitKey (1, directionOf false))) c = 0 :=
    fun c => by rw [uncounted]; exact Tally.of_none
  refine ⟨s, reached, ?_⟩
  have oversized : ([packetToOne 60, packetToOne 70000].map
      (flowBytes (1, directionOf false) (maxPolicedLen < ·))).sum = 70000 := by
    rw [List.map_cons, List.map_singleton, short, long]
    rfl
  have before : ([(3 : UInt32)].map fun tap =>
      Tally.of (({} : Counters).traffic ⟨tap, 1⟩) (byteCounter false)).sum = 0 := rfl
  dsimp only at accounted
  rw [none, none, oversized, before, Nat.add_zero, Nat.add_zero, Nat.zero_add, List.map_singleton,
    List.sum_singleton] at accounted
  exact accounted

end Node

end VmWatcher

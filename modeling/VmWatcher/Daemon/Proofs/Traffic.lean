import VmWatcher.Daemon.Proofs.InForce
import VmWatcher.Misc.Mealy

/-!
# The traffic between two handlers

Between two handlers of the daemon the classifiers see one packet after the other. What they
do with those of a limited flow is what the policy in the file makes of them, run on the state
of the flow; the packets of other flows, in any number and between any two of them, change
nothing.
-/

namespace VmWatcher

open Limiter

/-- A packet at a TAP, the clock when it comes and the room in the maps. -/
structure Arrival where
  inserts : Inserts
  ctx : TcContext
  isTx : Bool
  now : ℕ

open Classical in
/-- The classifiers, packet by packet. -/
noncomputable def classifier (host : ByteOrder) : Mealy EbpfMaps Arrival Verdict := fun m a =>
  m.handle host a.inserts a.ctx a.isTx a.now

namespace Arrival

/-- The packet is one of the flow. -/
def Of (a : Arrival) (flow : FlowKey) : Prop :=
  a.ctx.Flow a.isTx flow.1 ∧ directionOf a.isTx = flow.2

open Classical in
/-- What the policer of a flow sees of a packet. -/
noncomputable def policedBy (flow : FlowKey) (a : Arrival) : Option Packet :=
  if a.Of flow ∧ (⟨a.now, a.ctx.len.toNat⟩ : Packet).Policed then some ⟨a.now, a.ctx.len.toNat⟩
  else none

theorem policedBy_eq_some_iff {flow : FlowKey} {a : Arrival} {k : Packet} :
    a.policedBy flow = some k ↔ a.Of flow ∧ k.Policed ∧ k = ⟨a.now, a.ctx.len.toNat⟩ := by
  unfold policedBy
  split
  · rename_i own
    constructor
    · intro h
      obtain rfl := Option.some.inj h
      exact ⟨own.1, own.2, rfl⟩
    · intro h
      rw [h.2.2]
  · rename_i other
    constructor
    · exact nofun
    · intro h
      obtain ⟨own, policed, rfl⟩ := h
      exact absurd ⟨own, policed⟩ other

/-- The packets of two flows are different ones. -/
theorem Of.unique {a : Arrival} {flow flow' : FlowKey} (h : a.Of flow) (h' : a.Of flow') :
    flow = flow' := Prod.ext (h.1.unique h'.1) (h.2.symm.trans h'.2)

end Arrival

/-- The verdict on a conforming packet, or on one that does not conform. -/
def Verdict.of (conform : Bool) : Verdict := if conform then .unspec else .shot

namespace EbpfMaps

variable {host : ByteOrder} {m : EbpfMaps} {flow : FlowKey} {policy : LimitPolicy}

/-- The flow is monitored and armed with this policy, which has its artifact. -/
structure Armed (host : ByteOrder) (flow : FlowKey) (policy : LimitPolicy) (m : EbpfMaps) :
    Prop where
  monitored : m.limits.monitors host flow.1
  installed : m.limits.policies (limitKey flow) = some policy
  enabled : policy.enabled ≠ 0
  rate : policy.rateBps ≠ 0
  artifact : m.limits.hasArtifact (limitKey flow) (artifactOf policy.algorithm) = true

theorem monitors_congr {d d' : Dataplane} (h : d'.shape = d.shape) (ipv4 : UInt32) :
    d'.monitors host ipv4 ↔ d.monitors host ipv4 := by
  have same : d'.monitoredIps = d.monitoredIps := congrArg Shape.whitelisted h
  unfold Dataplane.monitors
  rw [same]

theorem classifier_shape (host : ByteOrder) (m : EbpfMaps) (a : Arrival) :
    (classifier host m a).1.limits.shape = m.limits.shape := by
  classical exact handle_shape

/-- Packets arm and disarm nothing. -/
theorem Armed.classifier (h : m.Armed host flow policy) (a : Arrival) :
    (classifier host m a).1.Armed host flow policy := by
  have own := congrArg (fun σ => σ.flow (limitKey flow)) (classifier_shape host m a)
  refine ⟨(monitors_congr (classifier_shape host m a) _).mpr h.monitored, ?_, h.enabled, h.rate, ?_⟩
  · exact (congrArg FlowShape.policy own).trans h.installed
  · exact (congrFun (congrArg FlowShape.artifacts own) _).trans h.artifact

/-! ### Packets of a flow -/

section Police

variable {inserts : Inserts} {key : LimitKey} {ipv4 : UInt32} {direction : UInt8} {lenBytes now : ℕ}

theorem recordVerdict_artifacts (passed : Bool) (k : LimitKey) :
    (m.recordVerdict inserts key lenBytes passed).limits.artifacts k = m.limits.artifacts k := by
  unfold recordVerdict
  split <;> rfl

/-- What the algorithm leaves in the artifacts is what is written back. -/
theorem artifacts_store_self {d : Dataplane} :
    (d.store key (policeArtifacts policy (d.artifacts key) now lenBytes).val.1
      (artifactOf policy.algorithm)).artifacts key =
      (policeArtifacts policy (d.artifacts key) now lenBytes).val.1 := by
  by_cases ring : policy.algorithm = algoSlidingWindowLog
  · simp [policeArtifacts_ring ring, artifactOf, ring, Dataplane.store, Dataplane.artifacts]
  · simp [policeArtifacts_state ring, artifactOf, ring, Dataplane.store, Dataplane.artifacts]

/-- A packet the policer does not look at, or one of another flow. -/
theorem police_artifacts_other (key : LimitKey)
    (other : (⟨ipv4, direction⟩ : LimitKey) = key → ¬ (⟨now, lenBytes⟩ : Packet).Policed) :
    (m.police inserts ipv4 direction lenBytes now).1.limits.artifacts key =
      m.limits.artifacts key := by
  rcases police_cases inserts ipv4 direction lenBytes now m with
    ⟨policy, judges, -, result⟩ | ⟨-, result⟩ | ⟨-, result⟩
  · have hne : key ≠ ⟨ipv4, direction⟩ := fun same => other same.symm judges.policed
    rw [result, judged]
    exact (recordVerdict_artifacts _ key).trans (artifacts_store hne)
  · rw [result]
    exact congrArg (fun d => Dataplane.artifacts d key) recordOversized_limits
  · rw [result]

end Police

/-- A packet of the flow is answered as its algorithm answers, which takes the step it takes. -/
theorem Armed.police (h : m.Armed host flow policy) (inserts : Inserts) {k : Packet}
    (policed : k.Policed) :
    (m.police inserts flow.1 flow.2 k.len k.now).1.limits.artifacts (limitKey flow) =
        (policer policeArtifacts policy (m.limits.artifacts (limitKey flow)) k).1 ∧
      (m.police inserts flow.1 flow.2 k.len k.now).2 =
        !(policer policeArtifacts policy (m.limits.artifacts (limitKey flow)) k).2 := by
  have judges : m.limits.Judges ⟨flow.1, flow.2⟩ policy k.len :=
    ⟨h.installed, h.enabled, h.rate, policed⟩
  rw [police_of_judges judges]
  split
  · constructor
    · exact (recordVerdict_artifacts _ _).trans artifacts_store_self
    · rfl
  · rename_i lacks
    -- without a window the log admits everything
    have zero : policy.algorithm = algoSlidingWindowLog ∧ policy.windowNs = 0 := by
      by_contra window
      refine lacks ⟨fun ring zero => window ⟨ring, zero⟩, h.artifact⟩
    have window : isWindowAlgo policy.algorithm = true := by simp [isWindowAlgo, zero.1]
    have conforms : (policeArtifacts policy (m.limits.artifacts (limitKey flow)) k.now k.len).val =
        (m.limits.artifacts (limitKey flow), true) := policeArtifacts_zero_window window zero.2
    simp only [policer, conforms, Bool.not_true, and_self]

variable {a : Arrival}

theorem classifier_of (own : a.Of flow) (monitored : m.limits.monitors host flow.1) :
    classifier host m a =
      let r := (m.count a.inserts a.ctx flow.1 a.isTx).police a.inserts flow.1 flow.2
        a.ctx.len.toNat a.now
      (r.1, if r.2 then .shot else .unspec) := by
  classical
  unfold classifier
  rw [handle_flow own.1 monitored, own.2]

/-- Any other packet changes at most an IPv6 counter. -/
theorem classifier_other
    (other : ∀ ipv4, a.ctx.Flow a.isTx ipv4 → ¬ m.limits.monitors host ipv4) :
    ∃ traffic6, classifier host m a = ({ m with counters.traffic6 := traffic6 }, .unspec) := by
  classical
  have result : classifier host m a = (m, .unspec) ∨
      classifier host m a = (m.count6 a.inserts a.ctx a.isTx, .unspec) := handle_other other
  rcases result with result | result
  · exact ⟨m.counters.traffic6, result⟩
  · rw [result]
    unfold count6
    split
    · exact ⟨m.counters.traffic6, rfl⟩
    · exact ⟨_, rfl⟩

/-- A packet is of a whitelisted address or it is not. -/
theorem classifier_cases (host : ByteOrder) (m : EbpfMaps) (a : Arrival) :
    (∃ ipv4, a.ctx.Flow a.isTx ipv4 ∧ m.limits.monitors host ipv4 ∧
      classifier host m a =
        let r := (m.count a.inserts a.ctx ipv4 a.isTx).police a.inserts ipv4 (directionOf a.isTx)
          a.ctx.len.toNat a.now
        (r.1, if r.2 then .shot else .unspec)) ∨
    ((∀ ipv4, a.ctx.Flow a.isTx ipv4 → ¬ m.limits.monitors host ipv4) ∧
      ∃ traffic6, classifier host m a = ({ m with counters.traffic6 := traffic6 }, .unspec)) := by
  by_cases monitored : ∃ ipv4, a.ctx.Flow a.isTx ipv4 ∧ m.limits.monitors host ipv4
  · obtain ⟨ipv4, carries, monitored⟩ := monitored
    have own : a.Of (ipv4, directionOf a.isTx) := ⟨carries, rfl⟩
    exact .inl ⟨ipv4, carries, monitored, classifier_of own monitored⟩
  · have other : ∀ ipv4, a.ctx.Flow a.isTx ipv4 → ¬ m.limits.monitors host ipv4 :=
      fun ipv4 carries hit => monitored ⟨ipv4, carries, hit⟩
    exact .inr ⟨other, classifier_other other⟩

theorem count_armed (h : m.Armed host flow policy) (inserts : Inserts) (ctx : TcContext)
    (isTx : Bool) : (m.count inserts ctx flow.1 isTx).Armed host flow policy := by
  have same : (m.count inserts ctx flow.1 isTx).limits = m.limits := count_limits ctx isTx
  exact ⟨same.symm ▸ h.monitored, same.symm ▸ h.installed, h.enabled, h.rate,
    same.symm ▸ h.artifact⟩

/-- A packet of the flow. -/
theorem Armed.moved (h : m.Armed host flow policy) {k : Packet} (hk : a.policedBy flow = some k) :
    (VmWatcher.classifier host m a).1.limits.artifacts (limitKey flow) =
        (policer policeArtifacts policy (m.limits.artifacts (limitKey flow)) k).1 ∧
      (VmWatcher.classifier host m a).2 =
        .of (policer policeArtifacts policy (m.limits.artifacts (limitKey flow)) k).2 := by
  obtain ⟨own, policed, rfl⟩ := Arrival.policedBy_eq_some_iff.mp hk
  have counted := count_armed h a.inserts a.ctx a.isTx
  obtain ⟨artifacts, drops⟩ := counted.police a.inserts policed
  rw [count_limits] at artifacts drops
  rw [classifier_of own h.monitored]
  refine ⟨artifacts, ?_⟩
  dsimp only at drops ⊢
  rw [drops, Verdict.of]
  cases (policer policeArtifacts policy (m.limits.artifacts (limitKey flow))
    ⟨a.now, a.ctx.len.toNat⟩).2 <;> rfl

/-- Any other packet leaves alone what the policer leaves alone of it. -/
theorem classifier_still {α : Type} (view : Dataplane → α)
    (police : ∀ ipv4 direction lenBytes now (m : EbpfMaps),
      ((⟨ipv4, direction⟩ : LimitKey) = limitKey flow → ¬ (⟨now, lenBytes⟩ : Packet).Policed) →
      view (m.police a.inserts ipv4 direction lenBytes now).1.limits = view m.limits)
    (ha : a.policedBy flow = none) : view (classifier host m a).1.limits = view m.limits := by
  rcases classifier_cases host m a with ⟨ipv4, carries, -, result⟩ | ⟨-, traffic6, result⟩
  · have counted : (m.count a.inserts a.ctx ipv4 a.isTx).limits = m.limits :=
      count_limits a.ctx a.isTx
    rw [result]
    refine (police _ _ _ _ _ fun same policed => ?_).trans (congrArg view counted)
    have hflow : flow = (ipv4, directionOf a.isTx) := by
      injection same with h₁ h₂
      exact Prod.ext h₁.symm h₂.symm
    have own : a.Of flow := hflow ▸ ⟨carries, rfl⟩
    rw [Arrival.policedBy_eq_some_iff.mpr ⟨own, policed, rfl⟩] at ha
    cases ha
  · rw [result]

theorem artifacts_still (ha : a.policedBy flow = none) :
    (classifier host m a).1.limits.artifacts (limitKey flow) =
      m.limits.artifacts (limitKey flow) :=
  classifier_still (fun d => d.artifacts (limitKey flow))
    (fun _ _ _ _ _ other => police_artifacts_other _ other) ha

/-- The verdicts on the packets the flow's policer sees. -/
noncomputable def verdicts (host : ByteOrder) (flow : FlowKey) (m : EbpfMaps) (xs : List Arrival) :
    List Verdict :=
  (classifier host).noted (fun m a => (a.policedBy flow).map fun _ => (classifier host m a).2) m xs

/-- In any traffic the packets of an armed flow get the verdicts of its algorithm, run on them
alone. -/
theorem Armed.verdicts (h : m.Armed host flow policy) (xs : List Arrival) :
    verdicts host flow m xs =
      ((policer policeArtifacts policy).outputs (m.limits.artifacts (limitKey flow))
        (xs.filterMap (Arrival.policedBy flow))).map .of := by
  rw [← Mealy.outputs_map]
  refine Mealy.noted_of_component (fun m => m.limits.artifacts (limitKey flow))
    (Arrival.policedBy flow) (Armed host flow policy) ?_ ?_ ?_ xs m h
  · intro m a h
    exact h.classifier a
  · intro m a k h hk
    obtain ⟨artifacts, verdict⟩ := h.moved hk
    exact ⟨artifacts, by rw [hk, Option.map_some, verdict]⟩
  · intro m a h ha
    exact ⟨artifacts_still ha, by rw [ha, Option.map_none]⟩

open Classical in
/-- The packets of the flow, with the verdicts on them. -/
noncomputable def flowVerdicts (host : ByteOrder) (flow : FlowKey) (m : EbpfMaps)
    (xs : List Arrival) : List (Arrival × Verdict) :=
  (classifier host).noted
    (fun m a => if a.Of flow then some (a, (classifier host m a).2) else none) m xs

theorem eq_unspec_of_ne_shot {v : Verdict} (h : v ≠ .shot) : v = .unspec := by
  cases v with
  | unspec => rfl
  | shot => exact absurd rfl h

/-- An empty packet and one that is too long pass. -/
theorem flowVerdicts_unpoliced (xs : List Arrival) :
    ∀ v ∈ flowVerdicts host flow m xs, v.1.policedBy flow = none → v.2 = .unspec := by
  refine Mealy.noted_forall (fun _ => True) (fun _ _ _ => trivial) ?_ xs trivial
  intro m a v _ hv unpoliced
  obtain ⟨own, noted⟩ := Option.ite_none_right_eq_some.mp hv
  obtain rfl := Option.some.inj noted
  refine eq_unspec_of_ne_shot fun shot => ?_
  classical
  obtain ⟨ipv4, policy, carries, -, judges, -⟩ := (handle_shot_iff a.inserts).mp shot
  have policed : (⟨a.now, a.ctx.len.toNat⟩ : Packet).Policed := judges.policed
  cases unpoliced.symm.trans (Arrival.policedBy_eq_some_iff.mpr ⟨own, policed, rfl⟩)

/-- The packets of a flow that is not armed pass. -/
theorem flowVerdicts_unarmed (h : m.limits.policies (limitKey flow) = none) (xs : List Arrival) :
    ∀ v ∈ flowVerdicts host flow m xs, v.2 = .unspec := by
  refine Mealy.noted_forall (fun m => m.limits.policies (limitKey flow) = none) ?_ ?_ xs h
  · intro m a unarmed
    have shape := congrArg (fun σ => (σ.flow (limitKey flow)).policy) (classifier_shape host m a)
    exact shape.trans unarmed
  · intro m a v unarmed hv
    obtain ⟨own, noted⟩ := Option.ite_none_right_eq_some.mp hv
    obtain rfl := Option.some.inj noted
    refine eq_unspec_of_ne_shot fun shot => ?_
    classical
    obtain ⟨ipv4, policy, carries, -, judges, -⟩ := (handle_shot_iff a.inserts).mp shot
    have same : (ipv4, directionOf a.isTx) = flow := Arrival.Of.unique ⟨carries, rfl⟩ own
    subst same
    cases judges.installed.symm.trans unarmed

end EbpfMaps

namespace Node

variable {p : Parsers} {path : String} {reaches : RollingWindow → ℕ → Bool} {host : ByteOrder}
variable {s : Node} {flow : FlowKey} {policy : DirPolicy}

/-- A LIMITED flow is armed in the classifiers. -/
theorem Sound.armed (h : s.Sound p path reaches) (clean : s.daemon.rollbackHealth.degraded = false)
    (limited : s.daemon.engine.limiter.Limited flow)
    (assigned : s.daemon.engine.config.Assigns flow policy) (counters : Counters)
    (oversized : Table UInt8 OversizedStats) :
    EbpfMaps.Armed host flow policy.installed ⟨s.maps, counters, oversized⟩ := by
  have installed := (h.armed_iff clean).mpr ⟨policy, limited, assigned, rfl⟩
  have least := (h.bounded assigned).limit.1
  refine ⟨?_, installed, ?_, ?_, ?_⟩
  · rw [Dataplane.monitors_iff_covers host (h.filled clean)]
    obtain ⟨vr, hvr, inside, -⟩ := assigned
    exact ⟨vr, hvr, inside⟩
  · exact (by decide : (1 : UInt8) ≠ 0)
  · simp only [DirPolicy.installed, minRateBps] at least ⊢
    omega
  · exact (h.artifact_iff clean).mpr ⟨_, installed, rfl⟩

/-- The policy that limits a LIMITED flow. -/
theorem Sound.exists_assigned (h : s.Sound p path reaches)
    (limited : s.daemon.engine.limiter.Limited flow) :
    ∃ policy, s.daemon.engine.config.Assigns flow policy := by
  obtain ⟨policy, enforced⟩ := Option.isSome_iff_exists.mp ((h.ok.limited_iff flow).mp limited)
  exact ⟨policy, (h.enforced_iff.mp enforced).2⟩

/-! ### Packets and the file -/

/-- A packet that reaches a classifier between two handlers is dropped only if its flow is
LIMITED. Unless the dataplane is degraded it is dropped exactly if its flow is LIMITED and
the policy the file assigns the flow, run on the state of the flow, rejects its length. -/
theorem packet_dropped_by_file (h : s.Reachable p path reaches host) (inserts : Inserts)
    (ctx : TcContext) (isTx : Bool) (now : ℕ) (counters : Counters)
    (oversized : Table UInt8 OversizedStats) [DecidablePred (s.maps.monitors host)] :
    let m : EbpfMaps := ⟨s.maps, counters, oversized⟩
    have : DecidablePred (m.limits.monitors host) := ‹DecidablePred (s.maps.monitors host)›
    ((m.handle host inserts ctx isTx now).2 = .shot →
      ∃ ipv4, ctx.Flow isTx ipv4 ∧ s.daemon.engine.limiter.Limited (ipv4, directionOf isTx)) ∧
    (s.daemon.rollbackHealth.degraded = false →
      ((m.handle host inserts ctx isTx now).2 = .shot ↔
        ∃ ipv4 policy, ctx.Flow isTx ipv4 ∧
          s.daemon.engine.limiter.Limited (ipv4, directionOf isTx) ∧
          s.daemon.engine.config.Assigns (ipv4, directionOf isTx) policy ∧
          1 ≤ ctx.len.toNat ∧ ctx.len.toNat ≤ maxPolicedLen ∧
          s.maps.Rejects ⟨ipv4, directionOf isTx⟩ policy.installed ctx.len.toNat now)) := by
  intro m decides
  have sound := h.sound
  have shot : (m.handle host inserts ctx isTx now).2 = .shot ↔ _ :=
    EbpfMaps.handle_shot_iff inserts
  constructor
  · intro dropped
    obtain ⟨ipv4, policy, flow, -, judges, -⟩ := shot.mp dropped
    have armed : s.maps.policies (limitKey (ipv4, directionOf isTx)) = some policy :=
      judges.installed
    exact ⟨ipv4, flow, sound.armed_limited armed⟩
  · intro clean
    rw [shot]
    constructor
    · intro dropped
      obtain ⟨ipv4, entry, flow, -, judges, rejects⟩ := dropped
      have armed : s.maps.policies (limitKey (ipv4, directionOf isTx)) = some entry :=
        judges.installed
      obtain ⟨policy, limited, assigned, rfl⟩ := (sound.armed_iff clean).mp armed
      exact ⟨ipv4, policy, flow, limited, assigned, judges.policed.1, judges.policed.2, rejects⟩
    · intro rejected
      obtain ⟨ipv4, policy, flow, limited, assigned, some_len, fits, rejects⟩ := rejected
      have armed : m.Armed host _ _ := sound.armed clean limited assigned counters oversized
      exact ⟨ipv4, policy.installed, flow, armed.monitored,
        ⟨armed.installed, armed.enabled, armed.rate, some_len, fits⟩, rejects⟩

/-- An IPv4 packet to 0.0.0.1, received. -/
def packetToOne (len : UInt32) : Arrival :=
  ⟨.succeed, ⟨List.replicate 12 0 ++ [8, 0] ++ List.replicate 19 0 ++ [1], len, 3⟩, false, 0⟩

theorem packetToOne_flow (len : UInt32) : (packetToOne len).ctx.Flow false 1 := by
  have flow : (packetToOne 0).ctx.Flow false 1 :=
    TcContext.flow_iff.mpr ⟨14, List.replicate 19 0 ++ [1], by decide, by decide, by decide⟩
  exact flow

theorem packetToOne_policedBy {len : UInt32} (positive : 1 ≤ len.toNat)
    (fits : len.toNat ≤ maxPolicedLen) :
    (packetToOne len).policedBy (1, dirRx) = some ⟨0, len.toNat⟩ :=
  Arrival.policedBy_eq_some_iff.mpr ⟨⟨packetToOne_flow len, rfl⟩, ⟨positive, fits⟩, rfl⟩

theorem oneAddress_assigns : (oneAddress receiveLimit).Assigns (1, dirRx) receiveOnly :=
  ⟨_, List.mem_singleton.mpr rfl, rfl, "", ⟨some receiveOnly, none⟩, rfl, rfl⟩

/-- The file and the one flow it limits, with nothing judged yet. -/
theorem receiveLimit_reachable : ∃ s : Node,
    s.Reachable (.ofFile oneAddressText (oneAddressFile (some receiveLimitEntry))) "config.toml"
      RollingWindow.reachesExactly .little ∧
    s.daemon.rollbackHealth.degraded = false ∧ s.daemon.engine.config = oneAddress receiveLimit ∧
    s.daemon.engine.limiter.Limited (1, dirRx) ∧
    (∀ flow, flow ≠ (1, dirRx) → ¬ s.daemon.engine.limiter.Limited flow) ∧
    s.maps.artifacts (limitKey (1, dirRx)) = {} ∧ s.maps.policerStats = Table.empty := by
  obtain ⟨s, reached, engine, -, health, -, -, fresh, uncounted, -⟩ :=
    limited_reachable oneAddressText "config.toml" .little
  refine ⟨s, reached, by rw [health], by rw [engine], ?_, ?_, fresh, uncounted⟩
  · rw [engine]
    exact exceededTick_limited
  · intro flow other limited
    rw [engine] at limited
    obtain ⟨state, hstate, -⟩ := limited
    rw [(exceededTick_knowsOnly flow other).2.2] at hstate
    cases hstate

/-- The burst of 100 KB holds one frame of 65535 bytes and not two. -/
theorem packet_dropped_by_file_second : ∃ (s : Node) (decides : DecidablePred (s.maps.monitors .little)),
    s.Reachable (.ofFile oneAddressText (oneAddressFile (some receiveLimitEntry))) "config.toml"
      RollingWindow.reachesExactly .little ∧
    (@EbpfMaps.handle .little .succeed (packetToOne 65535).ctx false 0 ⟨s.maps, {}, Table.empty⟩
      decides).2 = .shot := by
  obtain ⟨s, reached, clean, config, limited, -, fresh, -⟩ := receiveLimit_reachable
  have assigned : s.daemon.engine.config.Assigns (1, dirRx) receiveOnly :=
    config ▸ oneAddress_assigns
  have armed : EbpfMaps.Armed .little _ _ _ :=
    reached.sound.armed clean limited assigned {} Table.empty
  -- the first frame
  let after := (classifier .little ⟨s.maps, {}, Table.empty⟩ (packetToOne 65535)).1
  have passed : s.maps.Packet .little after.limits :=
    ⟨.succeed, (packetToOne 65535).ctx, false, 0, {}, Table.empty, _, rfl⟩
  have moved := (armed.moved (@packetToOne_policedBy 65535 (by decide) (by decide))).1
  rw [fresh] at moved
  -- the second one
  have decides : DecidablePred (after.limits.monitors .little) := Classical.decPred _
  have next := reached.step (.packet passed)
  obtain ⟨-, dropped⟩ := packet_dropped_by_file next .succeed (packetToOne 65535).ctx false 0 {}
    Table.empty
  refine ⟨_, decides, next, (dropped clean).mpr ?_⟩
  refine ⟨1, receiveOnly, packetToOne_flow _, limited, assigned, by decide, by decide, ?_⟩
  refine ⟨.inl rfl, (armed.classifier _).artifact, by decide, ?_⟩
  have judged : (policeArtifacts receiveOnly.installed
      (policer policeArtifacts receiveOnly.installed {} ⟨0, 65535⟩).1 0 65535).val.2 = false := rfl
  rw [← judged]
  exact congrArg (fun st => (policeArtifacts receiveOnly.installed st 0 65535).val.2) moved

/-- Between two handlers the packets of a LIMITED flow that are not empty or too long get the
verdicts of the policy the file assigns it, run on the flow's state and its own packets alone,
however many packets of other flows come in between; its other packets pass. Those of a flow
that is not LIMITED all pass. -/
theorem traffic_policed_by_file (h : s.Reachable p path reaches host) (counters : Counters)
    (oversized : Table UInt8 OversizedStats) (xs : List Arrival) :
    (s.daemon.rollbackHealth.degraded = false → s.daemon.engine.limiter.Limited flow →
      ∀ policy, s.daemon.engine.config.Assigns flow policy →
      EbpfMaps.verdicts host flow ⟨s.maps, counters, oversized⟩ xs =
          ((policer policeArtifacts policy.installed).outputs (s.maps.artifacts (limitKey flow))
            (xs.filterMap (Arrival.policedBy flow))).map .of ∧
        ∀ v ∈ EbpfMaps.flowVerdicts host flow ⟨s.maps, counters, oversized⟩ xs,
          v.1.policedBy flow = none → v.2 = .unspec) ∧
    (¬ s.daemon.engine.limiter.Limited flow →
      ∀ v ∈ EbpfMaps.flowVerdicts host flow ⟨s.maps, counters, oversized⟩ xs, v.2 = .unspec) := by
  constructor
  · intro clean limited policy assigned
    have armed : EbpfMaps.Armed host _ _ _ :=
      h.sound.armed clean limited assigned counters oversized
    exact ⟨armed.verdicts xs, EbpfMaps.flowVerdicts_unpoliced xs⟩
  · intro unlimited
    refine EbpfMaps.flowVerdicts_unarmed ?_ xs
    by_contra present
    obtain ⟨entry, armed⟩ := Option.ne_none_iff_exists'.mp present
    exact unlimited (h.sound.armed_limited armed)

theorem traffic_policed_by_file_limited : ∃ s : Node,
    s.Reachable (.ofFile oneAddressText (oneAddressFile (some receiveLimitEntry))) "config.toml"
      RollingWindow.reachesExactly .little ∧
    EbpfMaps.verdicts .little (1, dirRx) ⟨s.maps, {}, Table.empty⟩
      [packetToOne 65535, packetToOne 65535, packetToOne 70000] = [.unspec, .shot] ∧
    ∀ xs, ∀ v ∈ EbpfMaps.flowVerdicts .little (2, dirRx) ⟨s.maps, {}, Table.empty⟩ xs,
      v.2 = .unspec := by
  obtain ⟨s, reached, clean, config, limited, unlimited, fresh, -⟩ := receiveLimit_reachable
  have assigned : s.daemon.engine.config.Assigns (1, dirRx) receiveOnly :=
    config ▸ oneAddress_assigns
  refine ⟨s, reached, ?_, fun xs => ?_⟩
  · obtain ⟨policed, -⟩ := traffic_policed_by_file reached {} Table.empty
      [packetToOne 65535, packetToOne 65535, packetToOne 70000]
    have frame : (packetToOne 65535).policedBy (1, dirRx) = some ⟨0, 65535⟩ :=
      packetToOne_policedBy (by decide) (by decide)
    have long : (packetToOne 70000).policedBy (1, dirRx) = none :=
      if_neg fun both => absurd both.2.2 (by decide)
    rw [(policed clean limited receiveOnly assigned).1, fresh, List.filterMap_cons_some frame,
      List.filterMap_cons_some frame, List.filterMap_cons_none long]
    rfl
  · obtain ⟨-, passed⟩ := traffic_policed_by_file reached {} Table.empty xs
    exact passed (unlimited (2, dirRx) (by decide))

end Node

end VmWatcher

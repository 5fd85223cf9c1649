import VmWatcher.Ebpf.Classifier
import VmWatcher.Ebpf.Proofs.Admission
import Mathlib.Tactic.IntervalCases

/-!
# What the classifiers do with a packet

A packet is dropped exactly when its frame carries an IPv4 packet of a whitelisted
address whose armed policy rejects it (`handle_spec`). What is counted does not depend on
the verdict, and the verdict not on what could be counted (`handle_verdict`).
-/

namespace VmWatcher

/-! ### Parsing -/

/-- The EtherType behind `i` tags. -/
def etherTypeAfter (frame : List UInt8) (i : ℕ) : UInt16 := be16At frame (12 + vlanHdrLen * i)

/-- A payload of the given EtherType lies behind `tags` complete tags, at most two. -/
structure Tagged (frame : List UInt8) (tags : ℕ) (etherType : UInt16) : Prop where
  few : tags ≤ maxVlanTags
  tagged : ∀ i < tags, isVlanTag (etherTypeAfter frame i) = true
  etherType : etherTypeAfter frame tags = etherType
  complete : ethHdrLen + tags * vlanHdrLen ≤ frame.length

/-- The frame carries an IPv4 packet behind its tags, its header complete. -/
structure CarriesIpv4 (frame : List UInt8) (tags : ℕ) : Prop where
  payload : Tagged frame tags ethertypeIpv4
  header : ethHdrLen + tags * vlanHdrLen + ipv4HdrLen ≤ frame.length

/-- The address of the VM in an IPv4 packet behind `tags` tags: the source of what it
sends, the destination of what it receives. -/
def vmAddress (frame : List UInt8) (tags : ℕ) (isTx : Bool) : UInt32 :=
  addrAt frame (ethHdrLen + tags * vlanHdrLen + if isTx then 12 else 16)

theorem Tagged.payload_unique {frame : List UInt8} {i j : ℕ} {et et' : UInt16}
    (h : Tagged frame i et) (h' : Tagged frame j et') (untagged : isVlanTag et = false)
    (untagged' : isVlanTag et' = false) : i = j := by
  rcases Nat.lt_trichotomy i j with less | same | more
  · rw [← h.etherType, h'.tagged i less] at untagged
    cases untagged
  · exact same
  · rw [← h'.etherType, h.tagged j more] at untagged'
    cases untagged'

theorem vlanWalk_eq_some_iff {et0 et1 et2 et : UInt16} {tags : ℕ} :
    vlanWalk et0 et1 et2 = some (tags, et) ↔ isVlanTag et = false ∧
      (tags = 0 ∧ et = et0 ∨ tags = 1 ∧ et = et1 ∧ isVlanTag et0 = true ∨
        tags = 2 ∧ et = et2 ∧ isVlanTag et0 = true ∧ isVlanTag et1 = true) := by
  unfold vlanWalk
  cases h0 : isVlanTag et0 <;> cases h1 : isVlanTag et1 <;> cases h2 : isVlanTag et2 <;> grind

namespace TcContext

variable {ctx : TcContext} {off n : ℕ} {hdr : List UInt8}

theorem load_eq_some_iff :
    ctx.load off n = some hdr ↔ off + n ≤ ctx.frame.length ∧ (ctx.frame.drop off).take n = hdr := by
  unfold load
  split
  · simp [*]
  · simp [*]

theorem getD_load (h : ctx.load off n = some hdr) {i : ℕ} (hi : i < n) :
    hdr.getD i 0 = ctx.frame.getD (off + i) 0 := by
  obtain ⟨-, rfl⟩ := load_eq_some_iff.mp h
  rw [List.getD_eq_getElem?_getD, List.getElem?_take_of_lt hi, List.getElem?_drop,
    ← List.getD_eq_getElem?_getD]

theorem be16At_load (h : ctx.load off n = some hdr) {i : ℕ} (hi : i + 1 < n) :
    be16At hdr i = be16At ctx.frame (off + i) := by
  rw [be16At, be16At, getD_load h (Nat.lt_of_succ_lt hi), getD_load h hi, Nat.add_assoc]

theorem addrAt_load (h : ctx.load off n = some hdr) {i : ℕ} (hi : i + 4 ≤ n) :
    addrAt hdr i = addrAt ctx.frame (off + i) := by
  obtain ⟨-, rfl⟩ := load_eq_some_iff.mp h
  rw [addrAt, addrAt, List.drop_take, List.take_take, List.drop_drop,
    min_eq_left (by omega : 4 ≤ n - i)]

theorem load_of_le (h : off + n ≤ ctx.frame.length) :
    ctx.load off n = some ((ctx.frame.drop off).take n) := if_pos h

/-- The EtherType that a header ends in. -/
theorem be16At_eth (h : ctx.load 0 ethHdrLen = some hdr) :
    be16At hdr 12 = etherTypeAfter ctx.frame 0 := be16At_load h (by decide)

theorem be16At_vlan {i : ℕ} (h : ctx.load (ethHdrLen + vlanHdrLen * i) vlanHdrLen = some hdr) :
    be16At hdr 2 = etherTypeAfter ctx.frame (i + 1) := by
  rw [be16At_load h (by decide), etherTypeAfter]
  congr 1
  simp only [ethHdrLen, vlanHdrLen]
  omega

theorem tagged_of_l3Header {etherType : UInt16} (h : ctx.l3Header = some (off, etherType)) :
    ∃ tags, off = ethHdrLen + tags * vlanHdrLen ∧ Tagged ctx.frame tags etherType := by
  simp only [l3Header, Option.bind_eq_bind, Option.bind_eq_some_iff] at h
  obtain ⟨eth, heth, ⟨et1, et2⟩, hinner, ⟨tags, et⟩, hwalk, hret⟩ := h
  obtain ⟨rfl, rfl⟩ := Prod.mk.inj (Option.some.inj hret)
  refine ⟨tags, rfl, ?_⟩
  have len0 := (load_eq_some_iff.mp heth).1
  rw [be16At_eth heth] at hinner hwalk
  obtain ⟨untagged, hwalk⟩ := vlanWalk_eq_some_iff.mp hwalk
  by_cases tag0 : isVlanTag (etherTypeAfter ctx.frame 0) = true
  · rw [if_pos tag0, Option.bind_eq_some_iff] at hinner
    obtain ⟨v1, hv1, hinner⟩ := hinner
    have len1 := (load_eq_some_iff.mp hv1).1
    have at1 : be16At v1 2 = etherTypeAfter ctx.frame 1 := be16At_vlan (i := 0) hv1
    rw [at1] at hinner
    by_cases tag1 : isVlanTag (etherTypeAfter ctx.frame 1) = true
    · rw [if_pos tag1, Option.bind_eq_some_iff] at hinner
      obtain ⟨v2, hv2, hinner⟩ := hinner
      have len2 := (load_eq_some_iff.mp hv2).1
      have at2 : be16At v2 2 = etherTypeAfter ctx.frame 2 := be16At_vlan (i := 1) hv2
      obtain ⟨rfl, rfl⟩ := Prod.mk.inj (Option.some.inj hinner)
      rcases hwalk with ⟨-, rfl⟩ | ⟨-, rfl, -⟩ | ⟨rfl, rfl, -, -⟩
      · rw [tag0] at untagged
        cases untagged
      · rw [tag1] at untagged
        cases untagged
      · refine ⟨le_rfl, ?_, at2.symm, len2⟩
        intro i hi
        interval_cases i
        · exact tag0
        · exact tag1
    · rw [if_neg tag1] at hinner
      obtain ⟨rfl, rfl⟩ := Prod.mk.inj (Option.some.inj hinner)
      rcases hwalk with ⟨-, rfl⟩ | ⟨rfl, rfl, -⟩ | ⟨-, -, -, tag1'⟩
      · rw [tag0] at untagged
        cases untagged
      · refine ⟨by decide, ?_, rfl, len1⟩
        intro i hi
        interval_cases i
        exact tag0
      · exact absurd tag1' tag1
  · rcases hwalk with ⟨rfl, rfl⟩ | ⟨-, -, tag0'⟩ | ⟨-, -, tag0', -⟩
    · exact ⟨by decide, fun i hi => absurd hi (Nat.not_lt_zero i), rfl, len0⟩
    · exact absurd tag0' tag0
    · exact absurd tag0' tag0

/-- The walk finds the payload behind the tags. -/
theorem l3Header_eq_some_iff {etherType : UInt16} (untagged : isVlanTag etherType = false) :
    ctx.l3Header = some (off, etherType) ↔
      ∃ tags, off = ethHdrLen + tags * vlanHdrLen ∧ Tagged ctx.frame tags etherType := by
  refine ⟨tagged_of_l3Header, ?_⟩
  intro h
  obtain ⟨tags, rfl, few, tagged, rfl, complete⟩ := h
  obtain ⟨eth, heth⟩ : ∃ eth, ctx.load 0 ethHdrLen = some eth :=
    ⟨_, load_of_le (Nat.le_trans (Nat.le_add_right ethHdrLen _) complete)⟩
  have hvlan : ∀ i, i + 1 ≤ tags → ∃ v, ctx.load (ethHdrLen + vlanHdrLen * i) vlanHdrLen = some v := by
    intro i hi
    refine ⟨_, load_of_le ?_⟩
    have : 14 + tags * 4 ≤ ctx.frame.length := complete
    show 14 + 4 * i + 4 ≤ ctx.frame.length
    omega
  simp only [l3Header, heth, Option.bind_eq_bind, Option.bind_some, be16At_eth heth]
  have few : tags ≤ 2 := few
  interval_cases tags
  · simp [untagged, vlanWalk]
  · have tag0 := tagged 0 (by decide)
    obtain ⟨v1, hv1⟩ := hvlan 0 (by decide)
    have at1 := be16At_vlan hv1
    replace hv1 : ctx.load ethHdrLen vlanHdrLen = some v1 := hv1
    simp [tag0, hv1, at1, untagged, vlanWalk]
  · have tag0 := tagged 0 (by decide)
    have tag1 := tagged 1 (by decide)
    obtain ⟨v1, hv1⟩ := hvlan 0 (by decide)
    obtain ⟨v2, hv2⟩ := hvlan 1 (by decide)
    have at1 := be16At_vlan hv1
    have at2 := be16At_vlan hv2
    replace hv1 : ctx.load ethHdrLen vlanHdrLen = some v1 := hv1
    replace hv2 : ctx.load (ethHdrLen + vlanHdrLen) vlanHdrLen = some v2 := hv2
    simp [tag0, hv1, at1, tag1, hv2, at2, untagged, vlanWalk]

/-- The packet is IPv4 traffic of a VM's address. -/
def Flow (ctx : TcContext) (isTx : Bool) (ipv4 : UInt32) : Prop :=
  ∃ tags, CarriesIpv4 ctx.frame tags ∧ vmAddress ctx.frame tags isTx = ipv4

variable {isTx : Bool} {ipv4 ipv4' : UInt32}

theorem Flow.unique (h : ctx.Flow isTx ipv4) (h' : ctx.Flow isTx ipv4') : ipv4 = ipv4' := by
  obtain ⟨tags, carries, rfl⟩ := h
  obtain ⟨tags', carries', rfl⟩ := h'
  rw [carries.payload.payload_unique carries'.payload (by decide) (by decide)]

/-- The packet is of the flow that `handle` reads from its headers. -/
theorem flow_iff : ctx.Flow isTx ipv4 ↔ ∃ off hdr, ctx.l3Header = some (off, ethertypeIpv4) ∧
    ctx.load off ipv4HdrLen = some hdr ∧ addrAt hdr (if isTx then 12 else 16) = ipv4 := by
  have room : (if isTx then 12 else 16) + 4 ≤ ipv4HdrLen := by cases isTx <;> decide
  constructor
  · intro h
    obtain ⟨tags, ⟨payload, header⟩, rfl⟩ := h
    have loaded := load_of_le header
    exact ⟨_, _, (l3Header_eq_some_iff (by decide)).mpr ⟨tags, rfl, payload⟩, loaded,
      addrAt_load loaded room⟩
  · intro h
    obtain ⟨off, hdr, found, loaded, rfl⟩ := h
    obtain ⟨tags, rfl, payload⟩ := tagged_of_l3Header found
    exact ⟨tags, ⟨payload, (load_eq_some_iff.mp loaded).1⟩, (addrAt_load loaded room).symm⟩

end TcContext

/-! ### Policing -/

namespace Dataplane

/-- The flow's state artifacts; an absent one reads as a fresh one. -/
def artifacts (d : Dataplane) (key : LimitKey) : StateArtifacts :=
  ⟨(d.limitState key).getD {}, (d.swlLog key).getD {}⟩

/-- Write back the artifact that the algorithm works on. -/
def store (d : Dataplane) (key : LimitKey) (s : StateArtifacts) : Artifact → Dataplane
  | .state => { d with limitState := d.limitState.insert key s.state }
  | .ring => { d with swlLog := d.swlLog.insert key s.ring }

/-- The flow has an armed policy, and packets of this length are judged by it. -/
structure Judges (d : Dataplane) (key : LimitKey) (policy : LimitPolicy) (lenBytes : ℕ) :
    Prop where
  installed : d.policies key = some policy
  enabled : policy.enabled ≠ 0
  rate : policy.rateBps ≠ 0
  policed : 1 ≤ lenBytes ∧ lenBytes ≤ maxPolicedLen

/-- The algorithm of the policy is known and has its state artifact and, where it works on
a window, its window, and its step does not admit the packet. -/
structure Rejects (d : Dataplane) (key : LimitKey) (policy : LimitPolicy) (lenBytes now : ℕ) :
    Prop where
  known : KnownAlgo policy.algorithm
  artifact : d.hasArtifact key (artifactOf policy.algorithm) = true
  window : isWindowAlgo policy.algorithm = true → policy.windowNs ≠ 0
  step : (policeArtifacts policy (d.artifacts key) now lenBytes).val.2 = false

end Dataplane

section Rejected

variable {policy : LimitPolicy} {s : StateArtifacts} {now lenBytes : ℕ}

/-- An unknown algorithm conforms. -/
theorem policeArtifacts_unknown (h : ¬ KnownAlgo policy.algorithm) :
    (policeArtifacts policy s now lenBytes).val = (s, true) := by
  simp only [KnownAlgo, isBucketAlgo, isWindowAlgo, Bool.or_eq_true, decide_eq_true_eq,
    not_or] at h
  obtain ⟨⟨⟨token, leaky⟩, gcra⟩, ⟨fixed, swc⟩, swl⟩ := h
  simp [policeArtifacts_state swl, policeState, token, leaky, fixed, swc, gcra]

/-- A window algorithm without a window conforms. -/
theorem policeArtifacts_zero_window (window : isWindowAlgo policy.algorithm = true)
    (zero : policy.windowNs = 0) : (policeArtifacts policy s now lenBytes).val = (s, true) := by
  simp only [isWindowAlgo, Bool.or_eq_true, decide_eq_true_eq] at window
  rcases window with (fixed | swc) | swl
  · have state : policy.algorithm ≠ algoSlidingWindowLog := by
      rw [fixed]
      decide
    simp [policeArtifacts_state state, policeState_fixed fixed, fixedWindow, zero]
  · have state : policy.algorithm ≠ algoSlidingWindowLog := by
      rw [swc]
      decide
    simp [policeArtifacts_state state, policeState_swc swc, slidingWindowCounter, zero]
  · simp [policeArtifacts_ring swl, swlPolice, zero]

end Rejected

namespace Dataplane

variable {d : Dataplane} {key : LimitKey} {policy : LimitPolicy} {lenBytes now : ℕ}

/-- A step that does not admit is one of a known algorithm that has its window. -/
theorem rejects_iff (artifact : d.hasArtifact key (artifactOf policy.algorithm) = true) :
    d.Rejects key policy lenBytes now ↔
      (policeArtifacts policy (d.artifacts key) now lenBytes).val.2 = false := by
  refine ⟨Rejects.step, fun step => ⟨?_, artifact, ?_, step⟩⟩
  · by_contra unknown
    rw [policeArtifacts_unknown unknown] at step
    cases step
  · intro window zero
    rw [policeArtifacts_zero_window window zero] at step
    cases step

end Dataplane

namespace EbpfMaps

variable {inserts : Inserts} {ipv4 : UInt32} {direction : UInt8} {lenBytes now : ℕ}
variable {m : EbpfMaps} {policy : LimitPolicy}

/-- What `police` makes of a packet that it judges. -/
def judged (inserts : Inserts) (key : LimitKey) (policy : LimitPolicy) (lenBytes now : ℕ)
    (m : EbpfMaps) : EbpfMaps × Bool :=
  let (s, conform) := (policeArtifacts policy (m.limits.artifacts key) now lenBytes).val
  let stepped := { m with limits := m.limits.store key s (artifactOf policy.algorithm) }
  (stepped.recordVerdict inserts key lenBytes conform, !conform)

theorem police_unarmed
    (h : ∀ policy, m.limits.policies ⟨ipv4, direction⟩ = some policy →
      policy.enabled = 0 ∨ policy.rateBps = 0) :
    m.police inserts ipv4 direction lenBytes now = (m, false) := by
  unfold police
  dsimp only
  cases hpolicy : m.limits.policies ⟨ipv4, direction⟩ with
  | none => rfl
  | some policy => exact if_pos (h policy hpolicy)

theorem police_empty : m.police inserts ipv4 direction 0 now = (m, false) := by
  unfold police
  dsimp only
  cases m.limits.policies ⟨ipv4, direction⟩ with
  | none => rfl
  | some policy => simp

section Armed

variable (installed : m.limits.policies ⟨ipv4, direction⟩ = some policy)
variable (enabled : policy.enabled ≠ 0) (rate : policy.rateBps ≠ 0)
include installed enabled rate

theorem police_oversized (big : maxPolicedLen < lenBytes) :
    m.police inserts ipv4 direction lenBytes now =
      (m.recordOversized inserts direction lenBytes, false) := by
  have some_len : lenBytes ≠ 0 := Nat.ne_of_gt (Nat.zero_lt_of_lt big)
  unfold police
  dsimp only
  rw [installed]
  dsimp only
  rw [if_neg (not_or.mpr ⟨enabled, rate⟩), if_neg some_len, if_pos big]

theorem police_dispatch (policed : 1 ≤ lenBytes ∧ lenBytes ≤ maxPolicedLen) :
    m.police inserts ipv4 direction lenBytes now =
      if policy.algorithm = algoSlidingWindowLog then
        m.swlPolice inserts ⟨ipv4, direction⟩ policy lenBytes now
      else if m.limits.hasArtifact ⟨ipv4, direction⟩ .state then
        m.judged inserts ⟨ipv4, direction⟩ policy lenBytes now
      else (m, false) := by
  unfold police
  dsimp only
  rw [installed]
  dsimp only
  rw [if_neg (not_or.mpr ⟨enabled, rate⟩), if_neg (Nat.ne_of_gt policed.1),
    if_neg (Nat.not_lt.mpr policed.2)]
  by_cases ring : policy.algorithm = algoSlidingWindowLog
  · rw [if_pos ring, if_pos ring]
  · rw [if_neg ring, if_neg ring]
    cases hstate : m.limits.limitState ⟨ipv4, direction⟩ with
    | none => simp [Dataplane.hasArtifact, hstate]
    | some state =>
      simp [Dataplane.hasArtifact, hstate, judged, policeArtifacts_state ring, Dataplane.store,
        artifactOf, ring, Dataplane.artifacts]

end Armed

/-- `swl_police` judges when the flow has its ring and the policy a window. -/
theorem swlPolice_eq {key : LimitKey} (ring : policy.algorithm = algoSlidingWindowLog) :
    m.swlPolice inserts key policy lenBytes now =
      if policy.windowNs ≠ 0 ∧ m.limits.hasArtifact key .ring then
        m.judged inserts key policy lenBytes now
      else (m, false) := by
  unfold swlPolice
  by_cases zero : policy.windowNs = 0
  · simp [zero]
  · rw [if_neg zero]
    cases hring : m.limits.swlLog key with
    | none => simp [Dataplane.hasArtifact, hring]
    | some r =>
      simp [Dataplane.hasArtifact, hring, zero, judged, policeArtifacts_ring ring,
        Dataplane.store, artifactOf, ring, Dataplane.artifacts]

/-- A packet that a policy judges is judged when the algorithm has its artifact, and the
log its window. -/
theorem police_of_judges (h : m.limits.Judges ⟨ipv4, direction⟩ policy lenBytes) :
    m.police inserts ipv4 direction lenBytes now =
      if (policy.algorithm = algoSlidingWindowLog → policy.windowNs ≠ 0) ∧
          m.limits.hasArtifact ⟨ipv4, direction⟩ (artifactOf policy.algorithm) then
        m.judged inserts ⟨ipv4, direction⟩ policy lenBytes now
      else (m, false) := by
  rw [police_dispatch h.installed h.enabled h.rate h.policed]
  by_cases ring : policy.algorithm = algoSlidingWindowLog
  · rw [if_pos ring, swlPolice_eq ring]
    simp [artifactOf, ring]
  · rw [if_neg ring]
    simp [artifactOf, ring]

/-- What `police` does, and when. -/
theorem police_cases (inserts : Inserts) (ipv4 : UInt32) (direction : UInt8) (lenBytes now : ℕ)
    (m : EbpfMaps) :
    (∃ policy, m.limits.Judges ⟨ipv4, direction⟩ policy lenBytes ∧
      m.limits.hasArtifact ⟨ipv4, direction⟩ (artifactOf policy.algorithm) = true ∧
      m.police inserts ipv4 direction lenBytes now =
        m.judged inserts ⟨ipv4, direction⟩ policy lenBytes now) ∨
    (maxPolicedLen < lenBytes ∧
      m.police inserts ipv4 direction lenBytes now =
        (m.recordOversized inserts direction lenBytes, false)) ∨
    ((∀ policy, m.limits.Judges ⟨ipv4, direction⟩ policy lenBytes →
        ¬ m.limits.Rejects ⟨ipv4, direction⟩ policy lenBytes now) ∧
      m.police inserts ipv4 direction lenBytes now = (m, false)) := by
  by_cases armed : ∃ policy, m.limits.policies ⟨ipv4, direction⟩ = some policy ∧
      policy.enabled ≠ 0 ∧ policy.rateBps ≠ 0
  · obtain ⟨policy, installed, enabled, rate⟩ := armed
    rcases Nat.eq_zero_or_pos lenBytes with rfl | some_len
    · exact .inr (.inr ⟨fun _ judges => absurd judges.policed.1 (by decide), police_empty⟩)
    · rcases Nat.lt_or_ge maxPolicedLen lenBytes with big | fits
      · exact .inr (.inl ⟨big, police_oversized installed enabled rate big⟩)
      · have judges : m.limits.Judges ⟨ipv4, direction⟩ policy lenBytes :=
          ⟨installed, enabled, rate, some_len, fits⟩
        rw [police_of_judges judges]
        split
        · next ready => exact .inl ⟨policy, judges, ready.2, rfl⟩
        · next lacks =>
          refine .inr (.inr ⟨fun policy' judges' rejects => lacks ?_, rfl⟩)
          obtain rfl := Option.some.inj (judges'.installed.symm.trans installed)
          refine ⟨fun ring => rejects.window ?_, rejects.artifact⟩
          simp [isWindowAlgo, ring]
  · refine .inr (.inr ⟨?_, police_unarmed ?_⟩)
    · intro policy judges
      exact absurd ⟨policy, judges.installed, judges.enabled, judges.rate⟩ armed
    · intro policy installed
      by_contra both
      rw [not_or] at both
      exact armed ⟨policy, installed, both⟩

/-- The policer drops what the flow's armed policy rejects. -/
theorem police_drops_iff : (m.police inserts ipv4 direction lenBytes now).2 = true ↔
    ∃ policy, m.limits.Judges ⟨ipv4, direction⟩ policy lenBytes ∧
      m.limits.Rejects ⟨ipv4, direction⟩ policy lenBytes now := by
  rcases police_cases inserts ipv4 direction lenBytes now m with
    ⟨policy, judges, artifact, result⟩ | ⟨big, result⟩ | ⟨none, result⟩
  · have verdict : m.limits.Rejects ⟨ipv4, direction⟩ policy lenBytes now ↔ _ :=
      m.limits.rejects_iff artifact
    rw [result]
    constructor
    · intro drops
      refine ⟨policy, judges, verdict.mpr ?_⟩
      simpa [judged] using drops
    · intro h
      obtain ⟨policy', judges', rejects⟩ := h
      obtain rfl := Option.some.inj (judges'.installed.symm.trans judges.installed)
      simp [judged, verdict.mp rejects]
  · rw [result]
    constructor
    · intro drops
      cases drops
    · intro h
      obtain ⟨policy, judges, -⟩ := h
      exact absurd judges.policed.2 (Nat.not_le.mpr big)
  · rw [result]
    constructor
    · intro drops
      cases drops
    · intro h
      obtain ⟨policy, judges, rejects⟩ := h
      exact absurd rejects (none policy judges)

end EbpfMaps

/-! ### What is recorded -/

/-- What the policer records of a packet. -/
inductive Fate where
  | unrecorded
  | passed
  | dropped
  | oversized
  deriving DecidableEq, Repr

namespace Fate

/-- The verdict counters after a packet of the flow. -/
def onStats (key : LimitKey) (lenBytes : ℕ) (t : Table LimitKey PolicerStats) :
    Fate → Table LimitKey PolicerStats
  | passed => t.insert key (((t key).getD ⟨0, 0, 0, 0⟩).record true lenBytes)
  | dropped => t.insert key (((t key).getD ⟨0, 0, 0, 0⟩).record false lenBytes)
  | _ => t

/-- The oversized counters after a packet of the direction. -/
def onOversized (direction : UInt8) (lenBytes : ℕ) (t : Table UInt8 OversizedStats) :
    Fate → Table UInt8 OversizedStats
  | oversized => t.insert direction (((t direction).getD {}).record lenBytes)
  | _ => t

end Fate

/-- The maps before and after `police` saw a packet of a flow. One counter set at most
grew, by the packet; but for the flow's own state artifacts nothing else changed. -/
structure Recorded (key : LimitKey) (lenBytes : ℕ) (fate : Fate) (m m' : EbpfMaps) : Prop where
  policerStats : m'.limits.policerStats = fate.onStats key lenBytes m.limits.policerStats
  oversized : m'.oversized = fate.onOversized key.direction lenBytes m.oversized
  policies : m'.limits.policies = m.limits.policies
  monitoredIps : m'.limits.monitoredIps = m.limits.monitoredIps
  others : ∀ k ≠ key, m'.limits.artifacts k = m.limits.artifacts k

namespace EbpfMaps

variable {inserts : Inserts} {ipv4 : UInt32} {direction : UInt8} {lenBytes now : ℕ}
variable {m : EbpfMaps} {policy : LimitPolicy} {key : LimitKey}

theorem entryOrInsert_true {K V : Type} (t : Table K V) (k : K) (fresh : V) :
    entryOrInsert t true k fresh = some ((t k).getD fresh) := by
  unfold entryOrInsert
  cases t k <;> rfl

theorem artifacts_store {d : Dataplane} {s : StateArtifacts} {a : Artifact} {k : LimitKey}
    (h : k ≠ key) : (d.store key s a).artifacts k = d.artifacts k := by
  cases a <;> simp [Dataplane.store, Dataplane.artifacts, h]

theorem judged_records : Recorded key lenBytes
    (if (m.judged .succeed key policy lenBytes now).2 then .dropped else .passed) m
    (m.judged .succeed key policy lenBytes now).1 := by
  unfold judged
  cases hstep : (policeArtifacts policy (m.limits.artifacts key) now lenBytes).val with
  | mk s conform =>
    simp only [recordVerdict, Inserts.succeed, entryOrInsert_true]
    have others : ∀ k ≠ key,
        (m.limits.store key s (artifactOf policy.algorithm)).artifacts k =
          m.limits.artifacts k := fun k hk => artifacts_store hk
    have kept : (m.limits.store key s (artifactOf policy.algorithm)).policerStats =
        m.limits.policerStats := by
      cases artifactOf policy.algorithm <;> rfl
    cases conform
    · refine ⟨?_, rfl, ?_, ?_, others⟩
      · simp [kept, Fate.onStats]
      · cases artifactOf policy.algorithm <;> rfl
      · cases artifactOf policy.algorithm <;> rfl
    · refine ⟨?_, rfl, ?_, ?_, others⟩
      · simp [kept, Fate.onStats]
      · cases artifactOf policy.algorithm <;> rfl
      · cases artifactOf policy.algorithm <;> rfl

theorem police_records (m : EbpfMaps) (ipv4 : UInt32) (direction : UInt8) (lenBytes now : ℕ) :
    ∃ fate, Recorded ⟨ipv4, direction⟩ lenBytes fate m
        (m.police .succeed ipv4 direction lenBytes now).1 ∧
      (fate = .dropped ↔ (m.police .succeed ipv4 direction lenBytes now).2 = true) := by
  rcases police_cases .succeed ipv4 direction lenBytes now m with
    ⟨policy, -, -, result⟩ | ⟨-, result⟩ | ⟨-, result⟩
  · rw [result]
    refine ⟨_, judged_records, ?_⟩
    split <;> simp [*]
  · rw [result]
    refine ⟨.oversized, ?_, by simp⟩
    simp only [recordOversized, Inserts.succeed, entryOrInsert_true]
    exact ⟨rfl, rfl, rfl, rfl, fun _ _ => rfl⟩
  · rw [result]
    exact ⟨.unrecorded, ⟨rfl, rfl, rfl, rfl, fun _ _ => rfl⟩, by simp⟩

/-! ### The whole classifier -/

@[simp] theorem count_limits (ctx : TcContext) (isTx : Bool) :
    (m.count inserts ctx ipv4 isTx).limits = m.limits := by
  unfold count
  dsimp only
  split <;> rfl

theorem count_succeed (ctx : TcContext) (isTx : Bool) :
    m.count .succeed ctx ipv4 isTx =
      { m with counters := m.counters.count ⟨ctx.ifindex, ipv4⟩ isTx ctx.len.toNat } := by
  simp only [count, Inserts.succeed, entryOrInsert_true]

theorem count6_succeed (ctx : TcContext) (isTx : Bool) :
    m.count6 .succeed ctx isTx =
      { m with counters := m.counters.count6 ctx.ifindex isTx ctx.len.toNat } := by
  simp only [count6, Inserts.succeed, entryOrInsert_true]

/-- The policer leaves the traffic counters alone. -/
theorem police_counters : (m.police inserts ipv4 direction lenBytes now).1.counters = m.counters := by
  rcases police_cases inserts ipv4 direction lenBytes now m with
    ⟨policy, -, -, result⟩ | ⟨-, result⟩ | ⟨-, result⟩
  · rw [result]
    simp only [judged, recordVerdict]
    split <;> rfl
  · rw [result]
    simp only [recordOversized]
    split <;> rfl
  · rw [result]

section Handle

variable {host : ByteOrder} {ctx : TcContext} {isTx : Bool}
variable [DecidablePred (m.limits.monitors host)]

/-- A packet of a whitelisted address is counted and policed. -/
theorem handle_flow (flow : ctx.Flow isTx ipv4) (monitored : m.limits.monitors host ipv4) :
    m.handle host inserts ctx isTx now =
      let r := (m.count inserts ctx ipv4 isTx).police inserts ipv4 (directionOf isTx)
        ctx.len.toNat now
      (r.1, if r.2 then .shot else .unspec) := by
  obtain ⟨off, hdr, found, loaded, rfl⟩ := TcContext.flow_iff.mp flow
  simp only [handle, found, loaded, if_true, if_pos monitored]

/-- Any other packet gets no verdict, and at most an IPv6 counter grows. -/
theorem handle_other (other : ∀ ipv4, ctx.Flow isTx ipv4 → ¬ m.limits.monitors host ipv4) :
    m.handle host inserts ctx isTx now = (m, .unspec) ∨
      m.handle host inserts ctx isTx now = (m.count6 inserts ctx isTx, .unspec) := by
  unfold handle
  split
  · exact .inl rfl
  · next off etherType found =>
    by_cases four : etherType = ethertypeIpv4
    · rw [if_pos four]
      subst four
      split
      · exact .inl rfl
      · next hdr loaded =>
        have flow : ctx.Flow isTx (addrAt hdr (if isTx then 12 else 16)) :=
          TcContext.flow_iff.mpr ⟨off, hdr, found, loaded, rfl⟩
        dsimp only
        rw [if_neg (other _ flow)]
        exact .inl rfl
    · rw [if_neg four]
      split
      · unfold handleV6
        split
        · exact .inl rfl
        · exact .inr rfl
      · exact .inl rfl

/-- A packet is dropped when it is IPv4 traffic of a whitelisted address that its armed
policy rejects, whatever could be counted. -/
theorem handle_shot_iff (inserts : Inserts) :
    (m.handle host inserts ctx isTx now).2 = .shot ↔
      ∃ ipv4 policy, ctx.Flow isTx ipv4 ∧ m.limits.monitors host ipv4 ∧
        m.limits.Judges ⟨ipv4, directionOf isTx⟩ policy ctx.len.toNat ∧
        m.limits.Rejects ⟨ipv4, directionOf isTx⟩ policy ctx.len.toNat now := by
  by_cases monitored : ∃ ipv4, ctx.Flow isTx ipv4 ∧ m.limits.monitors host ipv4
  · obtain ⟨ipv4, flow, monitored⟩ := monitored
    have drops : ((m.count inserts ctx ipv4 isTx).police inserts ipv4 (directionOf isTx)
          ctx.len.toNat now).2 = true ↔
        ∃ policy, m.limits.Judges ⟨ipv4, directionOf isTx⟩ policy ctx.len.toNat ∧
          m.limits.Rejects ⟨ipv4, directionOf isTx⟩ policy ctx.len.toNat now := by
      rw [police_drops_iff, count_limits]
    rw [handle_flow flow monitored]
    constructor
    · intro shot
      have dropped : ((m.count inserts ctx ipv4 isTx).police inserts ipv4 (directionOf isTx)
          ctx.len.toNat now).2 = true := by
        by_contra kept
        simp [kept] at shot
      obtain ⟨policy, judged⟩ := drops.mp dropped
      exact ⟨ipv4, policy, flow, monitored, judged⟩
    · intro h
      obtain ⟨ipv4', policy, flow', -, judged⟩ := h
      obtain rfl := flow.unique flow'
      exact if_pos (drops.mpr ⟨policy, judged⟩)
  · have other : ∀ ipv4, ctx.Flow isTx ipv4 → ¬ m.limits.monitors host ipv4 :=
      fun ipv4 flow hit => monitored ⟨ipv4, flow, hit⟩
    have unspec : (m.handle host inserts ctx isTx now).2 = .unspec := by
      rcases handle_other other with result | result <;> rw [result]
    rw [unspec]
    constructor
    · intro shot
      cases shot
    · intro h
      obtain ⟨ipv4, -, flow, hit, -⟩ := h
      exact absurd hit (other ipv4 flow)

/-- Whether a key could be inserted plays no part in the verdict. -/
theorem handle_verdict (inserts inserts' : Inserts) :
    (m.handle host inserts ctx isTx now).2 = (m.handle host inserts' ctx isTx now).2 := by
  have same : (m.handle host inserts ctx isTx now).2 = .shot ↔
      (m.handle host inserts' ctx isTx now).2 = .shot :=
    (handle_shot_iff inserts).trans (handle_shot_iff inserts').symm
  cases one : (m.handle host inserts ctx isTx now).2 with
  | shot => exact (same.mp one).symm
  | unspec =>
    cases other : (m.handle host inserts' ctx isTx now).2 with
    | shot => exact absurd (one.symm.trans (same.mpr other)) (by decide)
    | unspec => rfl

end Handle

/-- What one packet does, when the maps have room for its keys. -/
theorem handle_spec (host : ByteOrder) (ctx : TcContext) (isTx : Bool) (now : ℕ) (m : EbpfMaps)
    [DecidablePred (m.limits.monitors host)] :
    let r := m.handle host .succeed ctx isTx now
    (r.2 = .shot ↔ ∃ ipv4 policy, ctx.Flow isTx ipv4 ∧ m.limits.monitors host ipv4 ∧
      m.limits.Judges ⟨ipv4, directionOf isTx⟩ policy ctx.len.toNat ∧
      m.limits.Rejects ⟨ipv4, directionOf isTx⟩ policy ctx.len.toNat now) ∧
    (∀ ipv4, ctx.Flow isTx ipv4 → m.limits.monitors host ipv4 →
      r.1.counters = m.counters.count ⟨ctx.ifindex, ipv4⟩ isTx ctx.len.toNat ∧
      ∃ fate, Recorded ⟨ipv4, directionOf isTx⟩ ctx.len.toNat fate m r.1 ∧
        (fate = .dropped ↔ r.2 = .shot)) ∧
    ((∀ ipv4, ctx.Flow isTx ipv4 → ¬ m.limits.monitors host ipv4) →
      r.1.counters.traffic = m.counters.traffic ∧ r.1.limits = m.limits ∧
        r.1.oversized = m.oversized) := by
  refine ⟨handle_shot_iff .succeed, ?_, ?_⟩
  · intro ipv4 flow monitored
    rw [handle_flow flow monitored, count_succeed]
    refine ⟨police_counters, ?_⟩
    obtain ⟨fate, recorded, verdict⟩ := police_records
      { m with counters := m.counters.count ⟨ctx.ifindex, ipv4⟩ isTx ctx.len.toNat } ipv4
      (directionOf isTx) ctx.len.toNat now
    refine ⟨fate, ⟨recorded.policerStats, recorded.oversized, recorded.policies,
      recorded.monitoredIps, recorded.others⟩, verdict.trans ?_⟩
    simp
  · intro other
    have results : m.handle host .succeed ctx isTx now = (m, .unspec) ∨
        m.handle host .succeed ctx isTx now = (m.count6 .succeed ctx isTx, .unspec) :=
      handle_other other
    rcases results with result | result
    · rw [result]
      exact ⟨rfl, rfl, rfl⟩
    · rw [result, count6_succeed]
      exact ⟨rfl, rfl, rfl⟩

/-- A packet of 10.0.0.1 behind two tags, too long for the burst of its policy. -/
example :
    let d : Dataplane :=
      { Dataplane.empty with
        policies := Table.empty.insert ⟨0x0a000001, dirTx⟩ ⟨1, algoGcra, 100000, 1000, 0⟩
        limitState := Table.empty.insert ⟨0x0a000001, dirTx⟩ {}
        monitoredIps := fun _ => true }
    have : DecidablePred (d.monitors .little) := fun ipv4 =>
      .isTrue ⟨⟨0, 0⟩, rfl, (trieKey_matches_iff _ _ _ (by decide)).mpr <| by
        have := ipv4.toNat_lt
        simp [Cidr.Covers, this]⟩
    let frame : List UInt8 :=
      List.replicate 12 2 ++ [0x88, 0xa8, 0, 5, 0x81, 0, 0, 6, 8, 0, 0x45] ++
        List.replicate 11 0 ++ [10, 0, 0, 1, 10, 0, 0, 2]
    (handle .little .succeed ⟨frame, 1500, 3⟩ true 7 ⟨d, {}, Table.empty⟩).2 = .shot := by
  decide

end EbpfMaps

end VmWatcher

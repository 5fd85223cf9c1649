import VmWatcher.Core.Proofs.Ranges
import VmWatcher.Core.Proofs.Reconcile
import Mathlib.Data.List.Pairwise

/-!
# What an accepted configuration says about an address

The policy index merges the overrides of all ranges into one table and sorts the ranges.
Here an accepted configuration is read address by address: the range that contains it,
the override fields that range has for it, and what `resolve` makes of the two. The
index answers every lookup the same way.
-/

namespace VmWatcher

open ExceptRules

/-! ### The overrides of a range -/

namespace ValidatedRange

/-- The override fields of an address, if the range has any for it. -/
def overrideFields (vr : ValidatedRange) (ip : UInt32) : Option PolicyFields :=
  (vr.overrides.find? (·.1 = ip)).map Prod.snd

/-- The overrides are for distinct addresses of the range. -/
structure OverridesOwn (vr : ValidatedRange) : Prop where
  inside : ∀ o ∈ vr.overrides, vr.inner.contains o.1 = true
  distinct : (vr.overrides.map Prod.fst).Nodup

theorem OverridesOwn.overrideFields_eq {vr : ValidatedRange} (h : vr.OverridesOwn) {ip : UInt32}
    {fields : PolicyFields} (mem : (ip, fields) ∈ vr.overrides) :
    vr.overrideFields ip = some fields := by
  obtain ⟨o, found⟩ : ∃ o, vr.overrides.find? (·.1 = ip) = some o := by
    rw [← Option.isSome_iff_exists, List.find?_isSome]
    exact ⟨_, mem, by simp⟩
  have own : o.1 = ip := by simpa using List.find?_some found
  have same : o = (ip, fields) :=
    List.inj_on_of_nodup_map h.distinct (List.mem_of_find?_eq_some found) mem own
  rw [overrideFields, found, same]
  rfl

theorem overrideFields_eq_none {vr : ValidatedRange} {ip : UInt32}
    (absent : ∀ o ∈ vr.overrides, o.1 ≠ ip) : vr.overrideFields ip = none := by
  rw [overrideFields, Option.map_eq_none_iff, List.find?_eq_none]
  intro o ho
  simpa using absent o ho

end ValidatedRange

/-- What one override adds to those attached before it. -/
theorem attachOverride_own {swlEnabled : Bool} {scope : String} {range : IpRange}
    {policy : PolicyFields} {before after : List (UInt32 × PolicyFields)} {ov : OverrideEntry}
    (own : ValidatedRange.OverridesOwn ⟨range, policy, before⟩)
    (h : attachOverride swlEnabled scope range policy before ov = .ok after) :
    ValidatedRange.OverridesOwn ⟨range, policy, after⟩ := by
  unfold attachOverride at h
  split at h
  · exact absurd h throw_ne_ok
  next ip _ =>
    simp only [check_eq_ok, bind_eq_ok, pure_eq_ok] at h
    obtain ⟨within, -, fields, -, _, -, eff, -, _, -, new, rfl⟩ := h
    rw [not_or, UInt32.not_lt, UInt32.not_lt] at within
    have fresh : ip ∉ before.map Prod.fst := by
      simpa using new
    constructor
    · intro o ho
      rcases List.mem_append.mp ho with ho | ho
      · exact own.inside o ho
      · obtain rfl := List.mem_singleton.mp ho
        exact IpRange.contains_iff.mpr within
    · rw [List.map_append, List.nodup_append]
      refine ⟨own.distinct, List.nodup_singleton _, ?_⟩
      intro a ha b hb same
      obtain rfl := List.mem_singleton.mp hb
      exact fresh (same ▸ ha)

theorem attachPolicy_own {swlEnabled : Bool} {entry : IpRangeEntry} {range : IpRange}
    {vr : ValidatedRange} (h : attachPolicy swlEnabled entry range = .ok vr) :
    vr.OverridesOwn := by
  simp only [attachPolicy, bind_eq_ok, pure_eq_ok] at h
  obtain ⟨policy, -, eff, -, _, -, overrides, hoverrides, rfl⟩ := h
  refine foldlM_invariant (p := fun overrides =>
    ValidatedRange.OverridesOwn ⟨range, policy, overrides⟩) ?_ ⟨by simp, by simp⟩ hoverrides
  intro ov _ before after own hov
  exact attachOverride_own own hov

theorem inner_of_zip {swlEnabled : Bool} {entries : List IpRangeEntry} {ranges : List IpRange}
    {validated : List ValidatedRange} (same : entries.length = ranges.length)
    (h : ((entries.zip ranges).mapM fun (entry, range) =>
      attachPolicy swlEnabled entry range) = .ok validated) :
    validated.map ValidatedRange.inner = ranges := by
  induction entries generalizing ranges validated with
  | nil =>
    obtain rfl := List.length_eq_zero_iff.mp same.symm
    rw [List.zip_nil_left, List.mapM_nil, pure_eq_ok] at h
    rw [← h, List.map_nil]
  | cons entry entries ih =>
    cases ranges with
    | nil => exact absurd same (Nat.succ_ne_zero _)
    | cons range ranges =>
      simp only [List.zip_cons_cons, List.mapM_cons, bind_eq_ok, pure_eq_ok] at h
      obtain ⟨vr, attached, rest, hrest, rfl⟩ := h
      rw [List.map_cons, (attachPolicy_bounded attached).1, ih (Nat.succ.inj same) hrest]

theorem ValidatedRange.inner_of_reenumerates {ranges ranges' : List ValidatedRange}
    (h : List.Forall₂ ValidatedRange.Reenumerates ranges ranges') :
    ranges'.map ValidatedRange.inner = ranges.map ValidatedRange.inner := by
  induction h with
  | nil => rfl
  | cons head _ ih => rw [List.map_cons, List.map_cons, head.inner, ih]

namespace ValidatedConfig.Accepted

variable {cfg : ValidatedConfig}

theorem overridesOwn (h : cfg.Accepted) : ∀ vr ∈ cfg.ranges, vr.OverridesOwn := by
  obtain ⟨parseUrl, config, parsed, hparsed, ranges, same, rfl⟩ := h
  intro vr hvr
  obtain ⟨vr₀, hvr₀, reenumerates⟩ := ValidatedRange.exists_reenumerated same vr hvr
  obtain ⟨entry, range, hattach⟩ := parse_attached hparsed vr₀ hvr₀
  have own := attachPolicy_own hattach
  refine ⟨?_, ?_⟩
  · intro o ho
    rw [reenumerates.inner]
    exact own.inside o (reenumerates.overrides.mem_iff.mp ho)
  · exact (reenumerates.overrides.map Prod.fst).nodup_iff.mpr own.distinct

/-- No address belongs to two ranges. -/
theorem apart (h : cfg.Accepted) : cfg.ranges.Pairwise fun a b => a.inner.Apart b.inner := by
  obtain ⟨parseUrl, config, parsed, hparsed, ranges, same, rfl⟩ := h
  have inner := ValidatedRange.inner_of_reenumerates same
  simp only [Config.parse, check_eq_ok, bind_eq_ok, pure_eq_ok] at hparsed
  obtain ⟨-, _, -, sort, -, _, -, spelled, hspelled, validated, hvalidated, rfl⟩ := hparsed
  obtain ⟨-, -, -, yields, apart⟩ := validateRanges_eq_ok.mp hspelled
  rw [← inner_of_zip yields.length_eq hvalidated, ← inner, List.pairwise_map] at apart
  exact apart

/-- The range that contains an address is the only one. -/
theorem range_unique (h : cfg.Accepted) {vr vr' : ValidatedRange} (hvr : vr ∈ cfg.ranges)
    (hvr' : vr' ∈ cfg.ranges) {ip : UInt32} (inside : vr.inner.contains ip = true)
    (inside' : vr'.inner.contains ip = true) : vr = vr' := by
  by_contra differ
  have symmetric : Std.Symm fun a b : ValidatedRange => a.inner.Apart b.inner :=
    ⟨fun _ _ => IpRange.Apart.symm⟩
  exact h.apart.forall hvr hvr' differ ip ⟨inside, inside'⟩

end ValidatedConfig.Accepted

/-! ### The index, address by address -/

/-- The range's entry in the index. -/
structure BaseOf (vr : ValidatedRange) (r : PolicyRange) : Prop where
  start : r.start = vr.inner.start
  stop : r.stop = vr.inner.stop
  resolved : ∃ what, resolve vr.policy none what = .ok r.policy

/-- The index holds these ranges and their overrides, each under its own address. -/
structure Indexes (vrs : List ValidatedRange) (ranges : List PolicyRange)
    (overrides : Table UInt32 EffectivePolicy) : Prop where
  base : ∀ r ∈ ranges, ∃ vr ∈ vrs, BaseOf vr r
  covers : ∀ vr ∈ vrs, ∃ r ∈ ranges, BaseOf vr r
  resolved : ∀ ip eff, overrides ip = some eff →
    ∃ vr ∈ vrs, ∃ fields, (ip, fields) ∈ vr.overrides ∧
      ∃ what, resolve vr.policy (some fields) what = .ok eff
  present : ∀ vr ∈ vrs, ∀ o ∈ vr.overrides, (overrides o.1).isSome

section Index

variable {vrs rest : List ValidatedRange} {vr : ValidatedRange} {ranges ranges' : List PolicyRange}
variable {overrides overrides' : Table UInt32 EffectivePolicy}

/-- Indexing some overrides of a range keeps what was there and adds their own. -/
theorem indexOverrides_own {entries : List (UInt32 × PolicyFields)}
    (h : indexOverrides vr entries overrides = .ok overrides') :
    (∀ ip, (overrides ip).isSome → (overrides' ip).isSome) ∧
      (∀ o ∈ entries, (overrides' o.1).isSome) ∧
      ∀ ip eff, overrides' ip = some eff → overrides ip = some eff ∨
        ∃ fields, (ip, fields) ∈ entries ∧ ∃ what, resolve vr.policy (some fields) what = .ok eff := by
  induction entries generalizing overrides with
  | nil =>
    rw [indexOverrides, pure_eq_ok] at h
    subst h
    exact ⟨fun _ => id, by simp, fun _ _ => Or.inl⟩
  | cons entry entries ih =>
    simp only [indexOverrides, bind_eq_ok] at h
    obtain ⟨eff, hresolve, h⟩ := h
    obtain ⟨kept, added, origin⟩ := ih h
    have own : ((overrides.insert entry.1 eff) entry.1).isSome := by simp
    refine ⟨fun ip hip => kept ip ?_, ?_, ?_⟩
    · by_cases same : ip = entry.1
      · rw [same]
        exact own
      · rwa [Table.insert_of_ne same]
    · intro o ho
      rcases List.mem_cons.mp ho with rfl | ho
      · exact kept _ own
      · exact added o ho
    · intro ip eff' heff'
      rcases origin ip eff' heff' with old | ⟨fields, mem, resolved⟩
      · by_cases same : ip = entry.1
        · subst same
          rw [Table.insert_self, Option.some.injEq] at old
          exact Or.inr ⟨entry.2, List.mem_cons_self, _, old ▸ hresolve⟩
        · rw [Table.insert_of_ne same] at old
          exact Or.inl old
      · exact Or.inr ⟨fields, List.mem_cons_of_mem _ mem, resolved⟩

theorem indexRanges_indexes (known : Indexes vrs ranges overrides)
    (h : indexRanges rest ranges overrides = .ok (ranges', overrides')) :
    Indexes (vrs ++ rest) ranges' overrides' := by
  induction rest generalizing vrs ranges overrides with
  | nil =>
    rw [indexRanges, pure_eq_ok, Prod.mk.injEq] at h
    obtain ⟨rfl, rfl⟩ := h
    rwa [List.append_nil]
  | cons vr rest ih =>
    simp only [indexRanges, bind_eq_ok] at h
    obtain ⟨base, hbase, indexed, hindexed, h⟩ := h
    obtain ⟨kept, added, origin⟩ := indexOverrides_own hindexed
    rw [← List.singleton_append, ← List.append_assoc]
    refine ih ⟨?_, ?_, ?_, ?_⟩ h
    · intro r hr
      rcases List.mem_append.mp hr with hr | hr
      · obtain ⟨vr', hvr', own⟩ := known.base r hr
        exact ⟨vr', List.mem_append_left _ hvr', own⟩
      · obtain rfl := List.mem_singleton.mp hr
        exact ⟨vr, by simp, rfl, rfl, _, hbase⟩
    · intro vr' hvr'
      rcases List.mem_append.mp hvr' with hvr' | hvr'
      · obtain ⟨r, hr, own⟩ := known.covers vr' hvr'
        exact ⟨r, List.mem_append_left _ hr, own⟩
      · obtain rfl := List.mem_singleton.mp hvr'
        exact ⟨_, List.mem_append_right _ List.mem_cons_self, rfl, rfl, _, hbase⟩
    · intro ip eff heff
      rcases origin ip eff heff with old | ⟨fields, mem, resolved⟩
      · obtain ⟨vr', hvr', found⟩ := known.resolved ip eff old
        exact ⟨vr', List.mem_append_left _ hvr', found⟩
      · exact ⟨vr, by simp, fields, mem, resolved⟩
    · intro vr' hvr' o ho
      rcases List.mem_append.mp hvr' with hvr' | hvr'
      · exact kept _ (known.present vr' hvr' o ho)
      · obtain rfl := List.mem_singleton.mp hvr'
        exact added o ho

theorem buildIndex_indexes {cfg : ValidatedConfig}
    (h : buildIndex cfg = .ok (ranges, overrides)) : Indexes cfg.ranges ranges overrides := by
  simp only [buildIndex, bind_eq_ok, pure_eq_ok, Prod.mk.injEq] at h
  obtain ⟨⟨found, table⟩, hfound, rfl, rfl⟩ := h
  have start : Indexes [] [] Table.empty := ⟨by simp, by simp, by simp, by simp⟩
  have known := indexRanges_indexes start hfound
  rw [List.nil_append] at known
  have perm := List.perm_insertionSort (fun a b => a.start ≤ b.start) found
  refine ⟨fun r hr => known.base r (perm.mem_iff.mp hr), fun vr hvr => ?_, known.resolved,
    known.present⟩
  obtain ⟨r, hr, own⟩ := known.covers vr hvr
  exact ⟨r, perm.mem_iff.mpr hr, own⟩

end Index

theorem BaseOf.contains {vr : ValidatedRange} {r : PolicyRange} (h : BaseOf vr r) (ip : UInt32) :
    (decide (r.start ≤ ip) && decide (ip ≤ r.stop)) = vr.inner.contains ip := by
  rw [h.start, h.stop, IpRange.contains]

/-- An empty policy limits nothing. -/
theorem EffectivePolicy.dir_of_isEmpty {eff : EffectivePolicy} (h : eff.isEmpty = true)
    (direction : UInt8) : eff.dir direction = none := by
  rw [isEmpty, Bool.and_eq_true, Option.isNone_iff_eq_none, Option.isNone_iff_eq_none] at h
  simp [dir, h.1, h.2]

namespace Indexes

variable {cfg : ValidatedConfig} {ranges : List PolicyRange}
variable {overrides : Table UInt32 EffectivePolicy} {ip : UInt32}

/-- The index resolves an address of a range as the range and its override do. -/
theorem lookup_inside (h : Indexes cfg.ranges ranges overrides) (accepted : cfg.Accepted)
    {vr : ValidatedRange} (hvr : vr ∈ cfg.ranges) (inside : vr.inner.contains ip = true)
    (what : String) : ∃ eff, resolve vr.policy (vr.overrideFields ip) what = .ok eff ∧
      ∀ direction, lookupDir ranges overrides (ip, direction) = eff.dir direction := by
  cases hover : overrides ip with
  | some eff =>
    obtain ⟨vr', hvr', fields, mem, what', resolved⟩ := h.resolved ip eff hover
    have own := accepted.overridesOwn vr' hvr'
    obtain rfl := accepted.range_unique hvr hvr' inside (own.inside _ mem)
    refine ⟨eff, ?_, ?_⟩
    · rw [own.overrideFields_eq mem]
      exact resolve_scope what resolved
    · intro direction
      simp [lookupDir, lookup, hover]
  | none =>
    have bare : vr.overrideFields ip = none := by
      apply ValidatedRange.overrideFields_eq_none
      intro o ho same
      have there := h.present vr hvr o ho
      rw [same, hover] at there
      exact Bool.noConfusion there
    obtain ⟨r₀, hr₀, base₀⟩ := h.covers vr hvr
    obtain ⟨r, found⟩ : ∃ r, ranges.find? (fun r => r.start ≤ ip && ip ≤ r.stop) = some r := by
      rw [← Option.isSome_iff_exists, List.find?_isSome]
      exact ⟨r₀, hr₀, (base₀.contains ip).trans inside⟩
    obtain ⟨vr', hvr', base⟩ := h.base r (List.mem_of_find?_eq_some found)
    have chosen : (decide (r.start ≤ ip) && decide (ip ≤ r.stop)) = true :=
      List.find?_some (p := fun r : PolicyRange => r.start ≤ ip && ip ≤ r.stop) found
    have inside' := (base.contains ip).symm.trans chosen
    obtain rfl := accepted.range_unique hvr hvr' inside inside'
    obtain ⟨what', resolved⟩ := base.resolved
    refine ⟨r.policy, ?_, ?_⟩
    · rw [bare]
      exact resolve_scope what resolved
    · intro direction
      by_cases empty : r.policy.isEmpty = true
      · rw [EffectivePolicy.dir_of_isEmpty empty]
        simp [lookupDir, lookup, hover, found, Option.filter, empty]
      · simp [lookupDir, lookup, hover, found, Option.filter, empty]

/-- No policy for an address outside of all ranges. -/
theorem lookup_outside (h : Indexes cfg.ranges ranges overrides) (accepted : cfg.Accepted)
    (outside : ∀ vr ∈ cfg.ranges, ¬ vr.inner.contains ip = true) (direction : UInt8) :
    lookupDir ranges overrides (ip, direction) = none := by
  have unlisted : overrides ip = none := by
    by_contra listed
    obtain ⟨eff, hover⟩ := Option.ne_none_iff_exists'.mp listed
    obtain ⟨vr, hvr, fields, mem, -⟩ := h.resolved ip eff hover
    exact outside vr hvr ((accepted.overridesOwn vr hvr).inside _ mem)
  have uncovered : ranges.find? (fun r => r.start ≤ ip && ip ≤ r.stop) = none := by
    rw [List.find?_eq_none]
    intro r hr inside
    obtain ⟨vr, hvr, base⟩ := h.base r hr
    exact outside vr hvr ((base.contains ip).symm.trans inside)
  simp [lookupDir, lookup, unlisted, uncovered]

end Indexes

/-! ### Complete directions -/

/-- Every field of the policy is set, and the one its algorithm has no use for is zero. -/
structure DirPolicy.CompleteFrom (p : DirPolicy) (threshold limit : Option ℕ)
    (merged : PolicyFields) : Prop where
  threshold : threshold = some p.thresholdBps
  limit : limit = some p.limitBps
  window : merged.windowSecs = some p.windowSecs
  ratio : merged.triggerRatioPct = some p.triggerRatioPct
  duration : merged.limitDurationSecs = some p.limitDurationSecs
  algorithm : p.algorithm = merged.algorithm.getD algoGcra
  known : isBucketAlgo p.algorithm = true ∨ isWindowAlgo p.algorithm = true
  ofWindow : isWindowAlgo p.algorithm = true →
    p.burstBytes = 0 ∧ merged.limitWindowSecs = some p.limitWindowSecs
  ofBucket : ¬ isWindowAlgo p.algorithm = true →
    p.limitWindowSecs = 0 ∧ merged.burstBytes = some p.burstBytes

theorem buildDir_complete {threshold limit : Option ℕ} {merged : PolicyFields} {what dir : String}
    {p : DirPolicy} (h : buildDir threshold limit merged what dir = .ok (some p)) :
    p.CompleteFrom threshold limit merged := by
  obtain ⟨ht, hl, hwindow, hratio, hduration, halgorithm, own, hburst, hlimitWindow⟩ :=
    buildDir_eq_ok h
  refine ⟨ht, hl, hwindow, hratio, hduration, halgorithm, own.imp And.left And.left, ?_, ?_⟩
  · intro window
    rw [if_pos window] at hburst hlimitWindow
    rcases own with ⟨bucket, -⟩ | ⟨-, present⟩
    · exact absurd window (Bool.eq_false_iff.mp (not_isWindowAlgo bucket))
    · obtain ⟨secs, hsecs⟩ := Option.isSome_iff_exists.mp present
      rw [hsecs, Option.getD_some] at hlimitWindow
      exact ⟨hburst, hlimitWindow ▸ hsecs⟩
  · intro bucket
    rw [if_neg bucket] at hburst hlimitWindow
    rcases own with ⟨-, present⟩ | ⟨window, -⟩
    · obtain ⟨bytes, hbytes⟩ := Option.isSome_iff_exists.mp present
      rw [hbytes, Option.getD_some] at hburst
      exact ⟨hlimitWindow, hburst ▸ hbytes⟩
    · exact absurd window bucket

theorem resolve_complete {range : PolicyFields} {overrideFields : Option PolicyFields}
    {what : String} {eff : EffectivePolicy} (h : resolve range overrideFields what = .ok eff) :
    let merged := range.mergedWith (overrideFields.getD {})
    (∀ p, eff.rx = some p → p.CompleteFrom merged.rxThresholdBps merged.rxLimitBps merged) ∧
      ∀ p, eff.tx = some p → p.CompleteFrom merged.txThresholdBps merged.txLimitBps merged := by
  simp only [resolve, bind_eq_ok, pure_eq_ok] at h
  obtain ⟨rx, hrx, tx, htx, rfl⟩ := h
  refine ⟨?_, ?_⟩
  · intro p same
    subst same
    exact buildDir_complete hrx
  · intro p same
    subst same
    exact buildDir_complete htx

namespace Limiter

variable {cfg : ValidatedConfig}

/-- An accepted configuration is never refused, and once it is committed every address is
limited as the one range that contains it and its own override say, by complete policies;
an address outside of all ranges is not limited. -/
theorem accepted_config_resolves (accepted : cfg.Accepted) (l : Limiter) (now : ℕ)
    (limited : List FlowKey) :
    (∃ plan, l.planReload cfg now limited = .ok plan) ∧
      ∀ plan, l.planReload cfg now limited = .ok plan → ∀ ip,
        (∀ vr ∈ cfg.ranges, vr.inner.contains ip = true →
          (∀ vr' ∈ cfg.ranges, vr'.inner.contains ip = true → vr' = vr) ∧
          ∀ what, ∃ eff, resolve vr.policy (vr.overrideFields ip) what = .ok eff ∧
            (∀ direction, (l.commitReload plan).dirPolicy (ip, direction) = eff.dir direction) ∧
            let merged := vr.policy.mergedWith ((vr.overrideFields ip).getD {})
            (∀ p, eff.rx = some p →
              p.CompleteFrom merged.rxThresholdBps merged.rxLimitBps merged) ∧
            ∀ p, eff.tx = some p →
              p.CompleteFrom merged.txThresholdBps merged.txLimitBps merged) ∧
        ((∀ vr ∈ cfg.ranges, ¬ vr.inner.contains ip = true) →
          ∀ direction, (l.commitReload plan).dirPolicy (ip, direction) = none) := by
  refine ⟨planReload_accepted accepted l now limited, ?_⟩
  intro plan hplan ip
  have index := buildIndex_indexes (planReload_eq hplan).1
  have policy : ∀ direction, (l.commitReload plan).dirPolicy (ip, direction) =
      lookupDir plan.newRanges plan.newOverrides (ip, direction) :=
    fun direction => commitReload_dirPolicy l plan (ip, direction)
  refine ⟨fun vr hvr inside => ⟨?_, ?_⟩, ?_⟩
  · intro vr' hvr' inside'
    exact accepted.range_unique hvr' hvr inside' inside
  · intro what
    obtain ⟨eff, resolved, same⟩ := index.lookup_inside accepted hvr inside what
    refine ⟨eff, resolved, fun direction => ?_, resolve_complete resolved⟩
    rw [policy, same]
  · intro outside dir
    rw [policy]
    exact index.lookup_outside accepted outside dir

/-- A file whose second address switches to a fixed window. -/
def overriddenFile : Config :=
  { oneAddressFile none with
    ipRanges := [⟨"vms", "0.0.0.1-0.0.0.2", some receiveLimitEntry,
      [⟨"0.0.0.2", { algorithm := some "fixed_window", limitWindow := some "1s" }⟩]⟩] }

/-- What it is parsed to. -/
def overridden : ValidatedConfig :=
  { oneAddress {} with
    ranges := [⟨⟨"vms", 1, 2⟩, receiveLimit,
      [(2, { algorithm := some algoFixedWindow, limitWindowSecs := some 1 })]⟩] }

theorem accepted_overridden : overridden.Accepted := by
  have parsed : overriddenFile.parse (fun _ => .error "") = .ok overridden := rfl
  exact ValidatedConfig.accepted_of_parse parsed

theorem accepted_config_resolves_override :
    ∃ plan, (new 1).planReload overridden 0 [] = .ok plan ∧
      ((new 1).commitReload plan).dirPolicy (1, dirRx) =
        some ⟨1000000, 1000000, 1, 100, 1, 100000, algoGcra, 0⟩ ∧
      ((new 1).commitReload plan).dirPolicy (2, dirRx) =
        some ⟨1000000, 1000000, 1, 100, 1, 0, algoFixedWindow, 1⟩ := by
  obtain ⟨⟨plan, hplan⟩, resolves⟩ := accepted_config_resolves accepted_overridden (new 1) 0 []
  refine ⟨plan, hplan, ?_, ?_⟩
  · obtain ⟨-, known⟩ := (resolves plan hplan 1).1 _ List.mem_cons_self rfl
    obtain ⟨eff, resolved, policy, -⟩ := known ""
    rw [policy]
    cases resolved
    rfl
  · obtain ⟨-, known⟩ := (resolves plan hplan 2).1 _ List.mem_cons_self rfl
    obtain ⟨eff, resolved, policy, -⟩ := known ""
    rw [policy]
    cases resolved
    rfl

end Limiter

end VmWatcher

import VmWatcher.Core.Limiter
import VmWatcher.Misc.ExceptRules

/-!
# Policies of accepted configurations

`parse` checks bounds on each range default and each override by itself. They survive
the merge, so every policy that an accepted configuration resolves to is in bounds.
-/

namespace VmWatcher

open ExceptRules

/-- The value, if there is one, lies between the bounds. -/
def OptWithin (low high : ℕ) (value : Option ℕ) : Prop := ∀ v, value = some v → low ≤ v ∧ v ≤ high

theorem OptWithin.or {low high : ℕ} {x y : Option ℕ} (hx : OptWithin low high x)
    (hy : OptWithin low high y) : OptWithin low high (x.or y) := by
  cases x with
  | none => exact hy
  | some v => exact hx

theorem checkWithin_eq_ok {low high : ℕ} {error : String} {value : Option ℕ} {u : Unit} :
    checkWithin low high error value = .ok u ↔ OptWithin low high value := by
  cases value with
  | none => exact ⟨fun _ => nofun, fun _ => rfl⟩
  | some v => simp [checkWithin, OptWithin]

/-- The algorithms the data path knows. -/
def KnownAlgo (algorithm : UInt32) : Prop := isBucketAlgo algorithm ∨ isWindowAlgo algorithm

/-- What `parse` makes sure of in a set of policy fields. -/
structure PolicyFields.Bounded (f : PolicyFields) : Prop where
  rxThreshold : OptWithin minRateBps maxRateBps f.rxThresholdBps
  txThreshold : OptWithin minRateBps maxRateBps f.txThresholdBps
  rxLimit : OptWithin minRateBps maxRateBps f.rxLimitBps
  txLimit : OptWithin minRateBps maxRateBps f.txLimitBps
  window : OptWithin 1 u64Max f.windowSecs
  triggerRatio : ∀ pct, f.triggerRatioPct = some pct → 1 ≤ pct ∧ pct ≤ 100
  limitDuration : OptWithin 1 u64Max f.limitDurationSecs
  burst : OptWithin 1 maxBurstBytes f.burstBytes
  algorithm : ∀ algo, f.algorithm = some algo → KnownAlgo algo
  limitWindow : OptWithin minLimitWindowSecs maxLimitWindowSecs f.limitWindowSecs

/-- What the code downstream may rely on in a direction policy. -/
structure DirPolicy.Bounded (p : DirPolicy) : Prop where
  threshold : minRateBps ≤ p.thresholdBps ∧ p.thresholdBps ≤ maxRateBps
  limit : minRateBps ≤ p.limitBps ∧ p.limitBps ≤ maxRateBps
  window : 1 ≤ p.windowSecs ∧ p.windowSecs ≤ u64Max
  triggerRatio : 1 ≤ p.triggerRatioPct ∧ p.triggerRatioPct ≤ 100
  limitDuration : 1 ≤ p.limitDurationSecs ∧ p.limitDurationSecs ≤ u64Max
  algorithm : KnownAlgo p.algorithm
  bucket : isBucketAlgo p.algorithm →
    (1 ≤ p.burstBytes ∧ p.burstBytes ≤ maxBurstBytes) ∧ p.limitWindowSecs = 0
  windowed : isWindowAlgo p.algorithm → p.burstBytes = 0 ∧
    minLimitWindowSecs ≤ p.limitWindowSecs ∧ p.limitWindowSecs ≤ maxLimitWindowSecs

/-- The trigger line of a policy in bounds is a whole number that a float holds. -/
theorem DirPolicy.Bounded.triggerBps_le {p : DirPolicy} (h : p.Bounded) : p.triggerBps ≤ 2 ^ 53 := by
  have ratio := UInt8.le_iff_toNat_le.mp h.triggerRatio.2
  calc p.triggerBps ≤ p.thresholdBps * p.triggerRatioPct.toNat / 100 :=
        Nat.div_le_div_right (Nat.min_le_left _ _)
    _ ≤ maxRateBps * 100 / 100 := Nat.div_le_div_right (Nat.mul_le_mul h.threshold.2 ratio)
    _ ≤ 2 ^ 53 := by decide

/-! ### Parsing one set of fields -/

theorem nonzero_eq_ok {value : Option ℕ} {raw what : String} {v : ℕ}
    (h : nonzero value raw what = .ok v) : value = some v ∧ 1 ≤ v := by
  cases value with
  | none => cases h
  | some value =>
    by_cases zero : value = 0
    · simp [nonzero, zero] at h
    · simp only [nonzero, zero, if_false, Except.ok.injEq] at h
      exact ⟨congrArg some h, by omega⟩

theorem u64CheckedMul_le {x y v : ℕ} (h : u64CheckedMul x y = some v) : v ≤ u64Max := by
  by_cases fits : x * y ≤ u64Max
  · rw [u64CheckedMul, if_pos fits, Option.some.injEq] at h
    exact h ▸ fits
  · rw [u64CheckedMul, if_neg fits] at h
    cases h

theorem parseUnit_eq_ok {what expected raw : String} {lookup : String → Option ℕ} {v : ℕ} :
    parseUnit what lookup expected raw = .ok v ↔ ∃ n unit mult, splitUnit raw what = .ok (n, unit) ∧
      lookup unit = some mult ∧ nonzero (u64CheckedMul n mult) raw what = .ok v := by
  simp only [parseUnit, bind_eq_ok]
  constructor
  · intro given
    obtain ⟨⟨n, unit⟩, hsplit, h⟩ := given
    cases hunit : lookup unit with
    | none => simp [hunit] at h
    | some mult =>
      simp only [hunit] at h
      exact ⟨n, unit, mult, hsplit, hunit, h⟩
  · intro given
    obtain ⟨n, unit, mult, hsplit, hunit, h⟩ := given
    refine ⟨(n, unit), hsplit, ?_⟩
    simp only [hunit]
    exact h

theorem parseUnit_within {what expected raw : String} {lookup : String → Option ℕ} {v : ℕ}
    (h : parseUnit what lookup expected raw = .ok v) : 1 ≤ v ∧ v ≤ u64Max := by
  obtain ⟨n, unit, mult, -, -, value⟩ := parseUnit_eq_ok.mp h
  obtain ⟨hmul, hpos⟩ := nonzero_eq_ok value
  exact ⟨hpos, u64CheckedMul_le hmul⟩

theorem parsePercent_within {raw : String} {pct : UInt8} (h : parsePercent raw = .ok pct) :
    1 ≤ pct ∧ pct ≤ 100 := by
  unfold parsePercent at h
  by_cases sign : (trim raw.toList).getLast? ≠ some '%'
  · simp [sign] at h
  · simp only [sign, if_false] at h
    cases hvalue : parseUnsigned 255 (trim (trim raw.toList).dropLast) with
    | none => simp [hvalue] at h
    | some value =>
      by_cases within : 1 ≤ value ∧ value ≤ 100
      · simp only [hvalue, within, and_self, if_true, pure_eq_ok] at h
        have hnat : (UInt8.ofNat value).toNat = value :=
          UInt8.toNat_ofNat_of_lt' (Nat.lt_of_le_of_lt within.2 (by decide))
        subst h
        rw [UInt8.le_iff_toNat_le, UInt8.le_iff_toNat_le, hnat]
        exact within
      · simp [hvalue, within] at h

theorem parseAlgorithm_known {raw : String} {algo : UInt32} (h : parseAlgorithm raw = .ok algo) :
    KnownAlgo algo := by
  unfold parseAlgorithm at h
  unfold KnownAlgo
  split at h <;> first | (cases h; decide) | cases h

/-- A property of whatever the parser of a field returns. -/
theorem parseField_within {α : Type} {parse : String → Except String α} {error : String → String}
    {p : α → Prop} (parsed : ∀ raw v, parse raw = .ok v → p v) {raw : Option String}
    {value : Option α} (h : parseField parse error raw = .ok value) : ∀ v, value = some v → p v := by
  cases raw with
  | none =>
    cases h
    nofun
  | some raw =>
    simp only [parseField, map_eq_ok, mapError_eq_ok] at h
    obtain ⟨v, hv, rfl⟩ := h
    intro w hw
    obtain rfl := Option.some.inj hw
    exact parsed raw v hv

/-- Parsed and checked, a set of fields is in bounds. -/
theorem intoFields_bounded {entry : PolicyEntry} {what what' : String} {fields : PolicyFields}
    (h : entry.intoFields what = .ok fields) (checked : checkPolicyBounds fields what' = .ok ()) :
    fields.Bounded := by
  simp only [PolicyEntry.intoFields, bind_eq_ok, pure_eq_ok] at h
  obtain ⟨_, -, _, -, _, -, _, -, _, hwindow, _, hratio, _, hduration, _, hburst, _, halgorithm,
    _, -, rfl⟩ := h
  simp only [checkPolicyBounds, bind_eq_ok, checkWithin_eq_ok] at checked
  obtain ⟨-, hrxThreshold, -, htxThreshold, -, hrxLimit, -, htxLimit, -, hmaxBurst, hlimitWindow⟩ :=
    checked
  exact {
    rxThreshold := hrxThreshold
    txThreshold := htxThreshold
    rxLimit := hrxLimit
    txLimit := htxLimit
    window := parseField_within (fun _ _ => parseUnit_within) hwindow
    triggerRatio := parseField_within (fun _ _ => parsePercent_within) hratio
    limitDuration := parseField_within (fun _ _ => parseUnit_within) hduration
    burst := fun v hv =>
      ⟨(parseField_within (fun _ _ => parseUnit_within) hburst v hv).1, (hmaxBurst v hv).2⟩
    algorithm := parseField_within (fun _ _ => parseAlgorithm_known) halgorithm
    limitWindow := hlimitWindow }

/-! ### Merging and resolving -/

theorem PolicyFields.bounded_default : ({} : PolicyFields).Bounded := by
  constructor <;> simp [OptWithin]

theorem PolicyFields.Bounded.mergedWith {fields other : PolicyFields} (h : fields.Bounded)
    (h' : other.Bounded) : (fields.mergedWith other).Bounded where
  rxThreshold := h'.rxThreshold.or h.rxThreshold
  txThreshold := h'.txThreshold.or h.txThreshold
  rxLimit := h'.rxLimit.or h.rxLimit
  txLimit := h'.txLimit.or h.txLimit
  window := h'.window.or h.window
  triggerRatio := by
    intro pct hpct
    rcases Option.or_eq_some_iff.mp hpct with hpct | ⟨-, hpct⟩
    · exact h'.triggerRatio pct hpct
    · exact h.triggerRatio pct hpct
  limitDuration := h'.limitDuration.or h.limitDuration
  burst := h'.burst.or h.burst
  algorithm := by
    intro algo halgo
    rcases Option.or_eq_some_iff.mp halgo with halgo | ⟨-, halgo⟩
    · exact h'.algorithm algo halgo
    · exact h.algorithm algo halgo
  limitWindow := h'.limitWindow.or h.limitWindow

/-- No algorithm is of both kinds. -/
theorem not_isWindowAlgo {algorithm : UInt32} (h : isBucketAlgo algorithm) :
    isWindowAlgo algorithm = false := by
  simp only [isBucketAlgo, Bool.or_eq_true, decide_eq_true_eq] at h
  rcases h with (rfl | rfl) | rfl <;> decide

/-- The field an algorithm cannot do without is there. -/
def HasOwnField (merged : PolicyFields) (algorithm : UInt32) : Prop :=
  (isBucketAlgo algorithm ∧ merged.burstBytes.isSome) ∨
    (isWindowAlgo algorithm ∧ merged.limitWindowSecs.isSome)

theorem algorithmField_eq_ok {merged : PolicyFields} {algorithm : UInt32} {what : String}
    {field : String × Bool} (h : algorithmField merged algorithm what = .ok field)
    (present : field.2 = true) : HasOwnField merged algorithm := by
  unfold algorithmField at h
  by_cases bucket : isBucketAlgo algorithm
  · rw [if_pos bucket] at h
    cases h
    exact Or.inl ⟨bucket, present⟩
  · rw [if_neg bucket] at h
    by_cases window : isWindowAlgo algorithm
    · rw [if_pos window] at h
      cases h
      exact Or.inr ⟨window, present⟩
    · rw [if_neg window] at h
      cases h

/-- A direction that is policed has every field its algorithm needs. -/
theorem buildDir_eq_ok {threshold limit : Option ℕ} {merged : PolicyFields} {what dir : String}
    {p : DirPolicy} (h : buildDir threshold limit merged what dir = .ok (some p)) :
    threshold = some p.thresholdBps ∧ limit = some p.limitBps ∧
      merged.windowSecs = some p.windowSecs ∧ merged.triggerRatioPct = some p.triggerRatioPct ∧
      merged.limitDurationSecs = some p.limitDurationSecs ∧
      p.algorithm = merged.algorithm.getD algoGcra ∧ HasOwnField merged p.algorithm ∧
      p.burstBytes = (if isWindowAlgo p.algorithm then 0 else merged.burstBytes.getD 0) ∧
      p.limitWindowSecs = if isWindowAlgo p.algorithm then merged.limitWindowSecs.getD 0 else 0 := by
  unfold buildDir at h
  by_cases absent : threshold.isNone && limit.isNone
  · rw [if_pos absent, pure_eq_ok] at h
    cases h
  · rw [if_neg absent] at h
    simp only [bind_eq_ok] at h
    obtain ⟨field, hfield, h⟩ := h
    split at h
    next thresholdBps limitBps windowSecs pct limitDurationSecs hwindow hratio hduration present =>
      rw [pure_eq_ok, Option.some.injEq] at h
      subst h
      exact ⟨rfl, rfl, hwindow, hratio, hduration, rfl, algorithmField_eq_ok hfield present, rfl, rfl⟩
    next => exact absurd h throw_ne_ok

theorem buildDir_bounded {threshold limit : Option ℕ} {merged : PolicyFields} {what dir : String}
    {p : DirPolicy} (hthreshold : OptWithin minRateBps maxRateBps threshold)
    (hlimit : OptWithin minRateBps maxRateBps limit) (bounded : merged.Bounded)
    (h : buildDir threshold limit merged what dir = .ok (some p)) : p.Bounded := by
  obtain ⟨ht, hl, hwindow, hratio, hduration, -, own, hburst, hlimitWindow⟩ := buildDir_eq_ok h
  refine {
    threshold := hthreshold _ ht
    limit := hlimit _ hl
    window := bounded.window _ hwindow
    triggerRatio := bounded.triggerRatio _ hratio
    limitDuration := bounded.limitDuration _ hduration
    algorithm := own.imp And.left And.left
    bucket := ?_
    windowed := ?_ }
  · intro bucket
    rw [not_isWindowAlgo bucket] at hburst hlimitWindow
    rcases own with ⟨-, present⟩ | ⟨window, -⟩
    · obtain ⟨burst, hsome⟩ := Option.isSome_iff_exists.mp present
      rw [hburst, hlimitWindow, hsome]
      exact ⟨bounded.burst burst hsome, rfl⟩
    · rw [not_isWindowAlgo bucket] at window
      cases window
  · intro windowed
    rw [if_pos windowed] at hburst hlimitWindow
    rcases own with ⟨bucket, -⟩ | ⟨-, present⟩
    · rw [not_isWindowAlgo bucket] at windowed
      cases windowed
    · obtain ⟨secs, hsome⟩ := Option.isSome_iff_exists.mp present
      rw [hburst, hlimitWindow, hsome]
      exact ⟨rfl, bounded.limitWindow secs hsome⟩

theorem resolve_bounded {range : PolicyFields} {overrideFields : Option PolicyFields}
    {what : String} {eff : EffectivePolicy} (hrange : range.Bounded)
    (hoverride : ∀ f, overrideFields = some f → f.Bounded)
    (h : resolve range overrideFields what = .ok eff) :
    ∀ p, eff.rx = some p ∨ eff.tx = some p → p.Bounded := by
  have hmerged : (range.mergedWith (overrideFields.getD {})).Bounded := by
    refine hrange.mergedWith ?_
    cases overrideFields with
    | none => exact PolicyFields.bounded_default
    | some f => exact hoverride f rfl
  simp only [resolve, bind_eq_ok, pure_eq_ok] at h
  obtain ⟨rx, hrx, tx, htx, rfl⟩ := h
  intro p hp
  rcases hp with hp | hp
  · obtain rfl : rx = some p := hp
    exact buildDir_bounded hmerged.rxThreshold hmerged.rxLimit hmerged hrx
  · obtain rfl : tx = some p := hp
    exact buildDir_bounded hmerged.txThreshold hmerged.txLimit hmerged htx

/-! ### Whole configurations -/

structure ValidatedRange.Bounded (vr : ValidatedRange) : Prop where
  policy : vr.policy.Bounded
  overrides : ∀ o ∈ vr.overrides, o.2.Bounded

/-- Only the order in which the map of overrides enumerates them may differ. -/
structure ValidatedRange.Reenumerates (vr vr' : ValidatedRange) : Prop where
  inner : vr'.inner = vr.inner
  policy : vr'.policy = vr.policy
  overrides : vr'.overrides.Perm vr.overrides

theorem ValidatedRange.exists_reenumerated {ranges ranges' : List ValidatedRange}
    (h : List.Forall₂ ValidatedRange.Reenumerates ranges ranges') :
    ∀ vr' ∈ ranges', ∃ vr ∈ ranges, vr.Reenumerates vr' := by
  induction h with
  | nil => simp
  | cons head _ ih =>
    intro vr' hvr'
    rcases List.mem_cons.mp hvr' with rfl | hvr'
    · exact ⟨_, List.mem_cons_self, head⟩
    · obtain ⟨vr, hvr, same⟩ := ih vr' hvr'
      exact ⟨vr, List.mem_cons_of_mem _ hvr, same⟩

namespace ValidatedConfig

/-- `parse` returned this configuration, up to the enumeration of its override maps. -/
def Accepted (cfg : ValidatedConfig) : Prop :=
  ∃ parseUrl config parsed, Config.parse parseUrl config = .ok parsed ∧
    ∃ ranges, List.Forall₂ ValidatedRange.Reenumerates parsed.ranges ranges ∧
      cfg = { parsed with ranges }

/-- The effective policy of a range of the configuration or of one of its overrides. -/
def Resolves (cfg : ValidatedConfig) (eff : EffectivePolicy) : Prop :=
  ∃ vr ∈ cfg.ranges, ∃ overrideFields what,
    (∀ fields, overrideFields = some fields → ∃ o ∈ vr.overrides, fields = o.2) ∧
      resolve vr.policy overrideFields what = .ok eff

/-- A direction policy of the configuration. -/
def ResolvesDir (cfg : ValidatedConfig) (p : DirPolicy) : Prop :=
  ∃ eff, cfg.Resolves eff ∧ (eff.rx = some p ∨ eff.tx = some p)

end ValidatedConfig

/-- An override that is attached has been parsed, checked and resolved. -/
theorem attachOverride_eq_ok {swlEnabled : Bool} {scope : String} {range : IpRange}
    {policy : PolicyFields} {overrides overrides' : List (UInt32 × PolicyFields)}
    {ov : OverrideEntry}
    (h : attachOverride swlEnabled scope range policy overrides ov = .ok overrides') :
    ∃ ip fields, (∃ what, ov.policy.intoFields what = .ok fields ∧
        checkPolicyBounds fields what = .ok ()) ∧
      (∃ what eff, resolve policy (some fields) what = .ok eff) ∧
      overrides' = overrides ++ [(ip, fields)] := by
  unfold attachOverride at h
  split at h
  · exact absurd h throw_ne_ok
  next ip hip =>
    by_cases outside : ip < range.start ∨ ip > range.stop
    · simp [outside] at h
    by_cases unset : ov.policy.isEmpty
    · simp [outside, unset] at h
    simp only [outside, unset, if_false, bind_eq_ok, Bool.false_eq_true] at h
    obtain ⟨fields, hfields, _, checked, eff, hresolve, _, -, h⟩ := h
    by_cases duplicate : overrides.any (·.1 = ip)
    · simp [duplicate] at h
    · simp only [duplicate, Bool.false_eq_true, if_false, pure_eq_ok] at h
      exact ⟨ip, fields, ⟨_, hfields, checked⟩, ⟨_, eff, hresolve⟩, h.symm⟩

/-- What every parsed and resolved set of fields has, every attached override has. -/
theorem attachOverride_all {swlEnabled : Bool} {scope : String} {range : IpRange}
    {policy : PolicyFields} {p : PolicyFields → Prop}
    (each : ∀ entry : PolicyEntry, ∀ fields, (∃ what, entry.intoFields what = .ok fields ∧
        checkPolicyBounds fields what = .ok ()) →
      (∃ what eff, resolve policy (some fields) what = .ok eff) → p fields)
    {entries : List OverrideEntry} {overrides : List (UInt32 × PolicyFields)}
    (h : entries.foldlM (attachOverride swlEnabled scope range policy) [] = .ok overrides) :
    ∀ o ∈ overrides, p o.2 := by
  refine foldlM_invariant (p := fun overrides => ∀ o ∈ overrides, p o.2) ?_ (by simp) h
  intro ov _ before after known hov
  obtain ⟨ip, fields, parsed, resolved, rfl⟩ := attachOverride_eq_ok hov
  intro o ho
  rcases List.mem_append.mp ho with ho | ho
  · exact known o ho
  · obtain rfl := List.mem_singleton.mp ho
    exact each ov.policy _ parsed resolved

theorem rangePolicy_bounded {entry : IpRangeEntry} {scope : String} {fields : PolicyFields}
    (h : rangePolicy entry scope = .ok fields) : fields.Bounded := by
  unfold rangePolicy at h
  split at h
  · cases h
    exact PolicyFields.bounded_default
  · simp only [bind_eq_ok, pure_eq_ok] at h
    obtain ⟨fields, hfields, _, checked, rfl⟩ := h
    exact intoFields_bounded hfields checked

theorem attachPolicy_bounded {swlEnabled : Bool} {entry : IpRangeEntry} {range : IpRange}
    {vr : ValidatedRange} (h : attachPolicy swlEnabled entry range = .ok vr) :
    vr.inner = range ∧ vr.Bounded := by
  simp only [attachPolicy, bind_eq_ok, pure_eq_ok] at h
  obtain ⟨policy, hpolicy, eff, -, _, -, overrides, hoverrides, rfl⟩ := h
  refine ⟨rfl, rangePolicy_bounded hpolicy, attachOverride_all ?_ hoverrides⟩
  rintro _ _ ⟨_, hfields, checked⟩ _
  exact intoFields_bounded hfields checked

namespace ValidatedConfig

variable {cfg : ValidatedConfig}

theorem accepted_of_parse {parseUrl : String → Except String Url} {config : Config}
    (h : config.parse parseUrl = .ok cfg) : cfg.Accepted := by
  have same : List.Forall₂ ValidatedRange.Reenumerates cfg.ranges cfg.ranges :=
    List.forall₂_same.mpr fun vr _ => ⟨rfl, rfl, .refl _⟩
  exact ⟨parseUrl, config, cfg, h, cfg.ranges, same, rfl⟩

theorem checkCollector_ok {collector : CollectorConfig} (h : checkCollector collector = .ok ()) :
    (1000 ≤ collector.refreshIntervalMs ∧
        collector.refreshIntervalMs ≤ maxCollectorIntervalSecs * 1000) ∧
      collector.refreshIntervalMs % 1000 = 0 := by
  by_cases refused : ¬(1000 ≤ collector.refreshIntervalMs ∧
      collector.refreshIntervalMs ≤ maxCollectorIntervalSecs * 1000) ∨
      collector.refreshIntervalMs % 1000 ≠ 0
  · simp only [checkCollector, refused, if_true] at h
    cases h
  · rw [not_or, not_not, not_not] at refused
    exact refused

/-- The refresh interval is a whole number of seconds. -/
theorem Accepted.refreshInterval (h : cfg.Accepted) :
    1000 ≤ cfg.refreshIntervalMs ∧ cfg.refreshIntervalMs % 1000 = 0 := by
  obtain ⟨parseUrl, config, parsed, hparse, ranges, -, rfl⟩ := h
  by_cases unnamed : (String.ofList (trim config.network.bridge.toList)).isEmpty
  · simp [Config.parse, unnamed] at hparse
  · simp only [Config.parse, unnamed, Bool.false_eq_true, if_false, bind_eq_ok, pure_eq_ok] at hparse
    obtain ⟨_, collector, sort, -, _, -, _, -, validated, -, rfl⟩ := hparse
    obtain ⟨within, whole⟩ := checkCollector_ok collector
    exact ⟨within.1, whole⟩

/-- Every range of a parsed configuration had its policy attached. -/
theorem parse_attached {parseUrl : String → Except String Url} {config : Config}
    (h : config.parse parseUrl = .ok cfg) : ∀ vr ∈ cfg.ranges, ∃ entry range,
      attachPolicy config.experimental.enableSlidingWindowLog entry range = .ok vr := by
  by_cases unnamed : (String.ofList (trim config.network.bridge.toList)).isEmpty
  · simp [Config.parse, unnamed] at h
  · simp only [Config.parse, unnamed, Bool.false_eq_true, if_false, bind_eq_ok, pure_eq_ok] at h
    obtain ⟨_, -, sort, -, _, -, ranges, -, validated, hvalidated, rfl⟩ := h
    intro vr hvr
    obtain ⟨⟨entry, range⟩, -, hattach⟩ := mem_of_mapM_eq_ok hvalidated vr hvr
    exact ⟨entry, range, hattach⟩

theorem parse_bounded {parseUrl : String → Except String Url} {config : Config}
    (h : config.parse parseUrl = .ok cfg) : ∀ vr ∈ cfg.ranges, vr.Bounded := by
  intro vr hvr
  obtain ⟨entry, range, hattach⟩ := parse_attached h vr hvr
  exact (attachPolicy_bounded hattach).2

theorem Accepted.bounded (h : cfg.Accepted) : ∀ vr ∈ cfg.ranges, vr.Bounded := by
  obtain ⟨parseUrl, config, parsed, hparsed, ranges, same, rfl⟩ := h
  intro vr hvr
  obtain ⟨vr₀, hvr₀, reenumerates⟩ := ValidatedRange.exists_reenumerated same vr hvr
  have bounded := parse_bounded hparsed vr₀ hvr₀
  exact ⟨reenumerates.policy ▸ bounded.policy, fun o ho =>
    bounded.overrides o (reenumerates.overrides.mem_iff.mp ho)⟩

/-- Every direction policy of an accepted configuration is in bounds. -/
theorem Accepted.resolvesDir (h : cfg.Accepted) {p : DirPolicy} (hp : cfg.ResolvesDir p) :
    p.Bounded := by
  obtain ⟨eff, ⟨vr, hvr, overrideFields, what, hoverride, hresolve⟩, hdir⟩ := hp
  have bounded := h.bounded vr hvr
  refine resolve_bounded bounded.policy ?_ hresolve p hdir
  intro fields hfields
  obtain ⟨o, ho, rfl⟩ := hoverride fields hfields
  exact bounded.overrides o ho

end ValidatedConfig

/-! ### The policy index -/

/-- Every policy of the index belongs to the configuration. -/
structure IndexOf (cfg : ValidatedConfig) (ranges : List PolicyRange)
    (overrides : Table UInt32 EffectivePolicy) : Prop where
  ranges : ∀ r ∈ ranges, cfg.Resolves r.policy
  overrides : ∀ ip eff, overrides ip = some eff → cfg.Resolves eff

section Index

variable {cfg : ValidatedConfig} {ranges ranges' : List PolicyRange}
variable {overrides overrides' : Table UInt32 EffectivePolicy}

theorem indexOverrides_indexOf {vr : ValidatedRange} (hvr : vr ∈ cfg.ranges)
    {entries : List (UInt32 × PolicyFields)} (sub : ∀ o ∈ entries, o ∈ vr.overrides)
    (known : IndexOf cfg ranges overrides) (h : indexOverrides vr entries overrides = .ok overrides') :
    IndexOf cfg ranges overrides' := by
  induction entries generalizing overrides with
  | nil =>
    rw [indexOverrides, pure_eq_ok] at h
    exact h ▸ known
  | cons entry rest ih =>
    simp only [indexOverrides, bind_eq_ok] at h
    obtain ⟨eff, hresolve, h⟩ := h
    have resolves : cfg.Resolves eff := by
      refine ⟨vr, hvr, some entry.2, _, fun fields hfields => ?_, hresolve⟩
      exact ⟨entry, sub entry List.mem_cons_self, (Option.some.inj hfields).symm⟩
    refine ih (fun o ho => sub o (List.mem_cons_of_mem _ ho)) ⟨known.ranges, ?_⟩ h
    intro ip eff' heff'
    by_cases hip : ip = entry.1
    · subst hip
      rw [Table.insert_self, Option.some.injEq] at heff'
      exact heff' ▸ resolves
    · rw [Table.insert_of_ne hip] at heff'
      exact known.overrides ip eff' heff'

theorem indexRanges_indexOf {vrs : List ValidatedRange} (sub : ∀ vr ∈ vrs, vr ∈ cfg.ranges)
    (known : IndexOf cfg ranges overrides)
    (h : indexRanges vrs ranges overrides = .ok (ranges', overrides')) :
    IndexOf cfg ranges' overrides' := by
  induction vrs generalizing ranges overrides with
  | nil =>
    rw [indexRanges, pure_eq_ok, Prod.mk.injEq] at h
    exact h.1 ▸ h.2 ▸ known
  | cons vr rest ih =>
    simp only [indexRanges, bind_eq_ok] at h
    obtain ⟨base, hbase, indexed, hindexed, h⟩ := h
    have hvr := sub vr List.mem_cons_self
    have next := indexOverrides_indexOf hvr (fun _ ho => ho) known hindexed
    refine ih (fun vr' hvr' => sub vr' (List.mem_cons_of_mem _ hvr')) ⟨?_, next.overrides⟩ h
    intro r hr
    rcases List.mem_append.mp hr with hr | hr
    · exact next.ranges r hr
    · obtain rfl := List.mem_singleton.mp hr
      exact ⟨vr, hvr, none, _, by simp, hbase⟩

theorem buildIndex_indexOf (h : buildIndex cfg = .ok (ranges, overrides)) :
    IndexOf cfg ranges overrides := by
  simp only [buildIndex, bind_eq_ok, pure_eq_ok, Prod.mk.injEq] at h
  obtain ⟨⟨found, table⟩, hfound, rfl, rfl⟩ := h
  have known := indexRanges_indexOf (fun _ hvr => hvr) ⟨by simp, by simp⟩ hfound
  exact ⟨fun r hr => known.ranges r ((List.perm_insertionSort _ found).mem_iff.mp hr),
    known.overrides⟩

theorem IndexOf.lookupDir (h : IndexOf cfg ranges overrides) {flow : FlowKey} {p : DirPolicy}
    (hp : lookupDir ranges overrides flow = some p) : cfg.ResolvesDir p := by
  obtain ⟨eff, hlookup, hdir⟩ := Option.bind_eq_some_iff.mp hp
  refine ⟨eff, ?_, ?_⟩
  · unfold lookup at hlookup
    cases hover : overrides flow.1 with
    | some eff' =>
      rw [hover] at hlookup
      obtain rfl := Option.some.inj hlookup
      exact h.overrides _ _ hover
    | none =>
      rw [hover] at hlookup
      obtain ⟨hmap, -⟩ := Option.filter_eq_some_iff.mp hlookup
      obtain ⟨r, hfind, rfl⟩ := Option.map_eq_some_iff.mp hmap
      exact h.ranges r (List.mem_of_find?_eq_some hfind)
  · unfold EffectivePolicy.dir at hdir
    split at hdir
    · exact Or.inl hdir
    · split at hdir
      · exact Or.inr hdir
      · cases hdir

end Index

/-! ### The index of an accepted configuration -/

section Scope

variable {merged range : PolicyFields} {algorithm : UInt32} {threshold limit : Option ℕ}
variable {overrideFields : Option PolicyFields} {what : String} (what' : String)

/-- The scope a policy is resolved in only shows in the texts of errors. -/
theorem algorithmField_scope {field : String × Bool}
    (h : algorithmField merged algorithm what = .ok field) :
    algorithmField merged algorithm what' = .ok field := by
  unfold algorithmField at h ⊢
  by_cases bucket : isBucketAlgo algorithm
  · rwa [if_pos bucket] at h ⊢
  · rw [if_neg bucket] at h ⊢
    by_cases window : isWindowAlgo algorithm
    · rwa [if_pos window] at h ⊢
    · rw [if_neg window] at h
      cases h

theorem buildDir_scope {dir : String} {p : Option DirPolicy}
    (h : buildDir threshold limit merged what dir = .ok p) :
    buildDir threshold limit merged what' dir = .ok p := by
  unfold buildDir at h ⊢
  by_cases absent : threshold.isNone && limit.isNone
  · rwa [if_pos absent] at h ⊢
  · rw [if_neg absent] at h ⊢
    simp only [bind_eq_ok] at h ⊢
    obtain ⟨field, hfield, h⟩ := h
    refine ⟨field, algorithmField_scope what' hfield, ?_⟩
    split at h
    · exact h
    · exact absurd h throw_ne_ok

theorem resolve_scope {eff : EffectivePolicy} (h : resolve range overrideFields what = .ok eff) :
    resolve range overrideFields what' = .ok eff := by
  simp only [resolve, bind_eq_ok] at h ⊢
  obtain ⟨rx, hrx, tx, htx, h⟩ := h
  exact ⟨rx, buildDir_scope what' hrx, tx, buildDir_scope what' htx, h⟩

end Scope

/-- The range's policy and each of its overrides were resolved once. -/
structure ValidatedRange.Resolvable (vr : ValidatedRange) : Prop where
  base : ∃ what eff, resolve vr.policy none what = .ok eff
  overrides : ∀ o ∈ vr.overrides, ∃ what eff, resolve vr.policy (some o.2) what = .ok eff

theorem attachPolicy_resolvable {swlEnabled : Bool} {entry : IpRangeEntry} {range : IpRange}
    {vr : ValidatedRange} (h : attachPolicy swlEnabled entry range = .ok vr) : vr.Resolvable := by
  simp only [attachPolicy, bind_eq_ok, pure_eq_ok] at h
  obtain ⟨policy, -, eff, hresolve, _, -, overrides, hoverrides, rfl⟩ := h
  refine ⟨⟨_, eff, hresolve⟩, ?_⟩
  exact attachOverride_all (fun _ _ _ resolved => resolved) hoverrides

theorem ValidatedConfig.Accepted.resolvable {cfg : ValidatedConfig} (h : cfg.Accepted) :
    ∀ vr ∈ cfg.ranges, vr.Resolvable := by
  obtain ⟨parseUrl, config, parsed, hparsed, ranges, same, rfl⟩ := h
  intro vr hvr
  obtain ⟨vr₀, hvr₀, reenumerates⟩ := ValidatedRange.exists_reenumerated same vr hvr
  obtain ⟨entry, range, hattach⟩ := parse_attached hparsed vr₀ hvr₀
  have known := attachPolicy_resolvable hattach
  exact ⟨reenumerates.policy ▸ known.base, fun o ho =>
    reenumerates.policy ▸ known.overrides o (reenumerates.overrides.mem_iff.mp ho)⟩

theorem indexOverrides_ok {vr : ValidatedRange} {entries : List (UInt32 × PolicyFields)}
    (known : ∀ o ∈ entries, ∃ what eff, resolve vr.policy (some o.2) what = .ok eff)
    (overrides : Table UInt32 EffectivePolicy) :
    ∃ overrides', indexOverrides vr entries overrides = .ok overrides' := by
  induction entries generalizing overrides with
  | nil => exact ⟨overrides, rfl⟩
  | cons entry rest ih =>
    obtain ⟨what, eff, hresolve⟩ := known entry List.mem_cons_self
    obtain ⟨overrides', hrest⟩ :=
      ih (fun o ho => known o (List.mem_cons_of_mem _ ho)) (overrides.insert entry.1 eff)
    refine ⟨overrides', ?_⟩
    simp only [indexOverrides, bind_eq_ok]
    exact ⟨eff, resolve_scope _ hresolve, hrest⟩

theorem indexRanges_ok {vrs : List ValidatedRange} (known : ∀ vr ∈ vrs, vr.Resolvable)
    (ranges : List PolicyRange) (overrides : Table UInt32 EffectivePolicy) :
    ∃ index, indexRanges vrs ranges overrides = .ok index := by
  induction vrs generalizing ranges overrides with
  | nil => exact ⟨_, rfl⟩
  | cons vr rest ih =>
    obtain ⟨what, base, hbase⟩ := (known vr List.mem_cons_self).base
    obtain ⟨table, htable⟩ := indexOverrides_ok (known vr List.mem_cons_self).overrides overrides
    obtain ⟨index, hrest⟩ := ih (fun vr' hvr' => known vr' (List.mem_cons_of_mem _ hvr'))
      (ranges ++ [⟨vr.inner.start, vr.inner.stop, base⟩]) table
    refine ⟨index, ?_⟩
    simp only [indexRanges, bind_eq_ok]
    exact ⟨base, resolve_scope _ hbase, table, htable, hrest⟩

/-- The index of an accepted configuration can be built. -/
theorem ValidatedConfig.Accepted.buildIndex_ok {cfg : ValidatedConfig} (h : cfg.Accepted) :
    ∃ index, buildIndex cfg = .ok index := by
  obtain ⟨⟨found, table⟩, hfound⟩ := indexRanges_ok h.resolvable [] Table.empty
  refine ⟨(found.insertionSort fun a b => a.start ≤ b.start, table), ?_⟩
  simp only [buildIndex, bind_eq_ok]
  exact ⟨(found, table), hfound, rfl⟩

end VmWatcher

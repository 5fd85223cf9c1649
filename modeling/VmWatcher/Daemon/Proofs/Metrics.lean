import VmWatcher.Core.Proofs.Ranges
import VmWatcher.Daemon.Metrics
import VmWatcher.Misc.Exposition

/-!
# What the metrics payload says

The payload is read with the exposition format alone. Each line comes back as one reading,
the name of the range as it was before `escape_label`, whatever characters it has.
-/

namespace VmWatcher

/-! ### Reading a payload -/

/-- What a sample says of one address. -/
structure PromReading where
  metric : String
  ip : UInt32
  range : String
  value : ℕ
  timestamp : ℤ
  deriving DecidableEq, Repr

/-- A sample with the labels `ip` and `range` and no others. -/
def PromReading.ofSample (s : Exposition.Sample) : Option PromReading := do
  let addr ← s.labels.lookup "ip".toList
  let range ← s.labels.lookup "range".toList
  let ip ← parseIpv4 addr
  let timestamp ← s.timestamp
  if s.labels.length = 2 then
    some ⟨String.ofList s.name, ip, String.ofList range, s.value, timestamp⟩
  else none

def promReadings (payload : String) : Option (List PromReading) := do
  let samples ← Exposition.decode payload.toList
  samples.mapM PromReading.ofSample

/-- The payload reads back as the series that are shown of each address, in ascending order
of the addresses. -/
def ReadsBack (payload : String) (shown : UInt32 → List (String × ℕ))
    (rangeName : UInt32 → String) (nowMs : ℤ) : Prop :=
  ∃ ips : List UInt32, ips.Pairwise (· < ·) ∧ (∀ ip, ip ∈ ips ↔ shown ip ≠ []) ∧
    promReadings payload = some (ips.flatMap fun ip =>
      (shown ip).map fun s => ⟨s.1, ip, rangeName ip, s.2, nowMs⟩)

/-- All four series of an address with traffic. -/
def trafficShown (totals : Table UInt32 IpTotals) (ip : UInt32) : List (String × ℕ) :=
  match totals ip with
  | none => []
  | some t =>
    if t.rxBytes ≠ 0 ∨ t.txBytes ≠ 0 ∨ t.rxPackets ≠ 0 ∨ t.txPackets ≠ 0 then t.series else []

/-- The policer series of an address that are not zero. -/
def policerShown (totals : Table UInt32 PolicerIpTotals) (ip : UInt32) : List (String × ℕ) :=
  match totals ip with
  | none => []
  | some t => t.series.filter fun s => s.2 ≠ 0

/-! ### The text -/

/-- A loop that appends to its text appends all it appends in one round. -/
theorem toList_foldl {A : Type} {step : String → A → String} {f : A → List Char}
    (h : ∀ out x, (step out x).toList = out.toList ++ f x) (xs : List A) (out : String) :
    (xs.foldl step out).toList = out.toList ++ xs.flatMap f := by
  induction xs generalizing out with
  | nil => simp
  | cons x xs ih => simp [ih, h]

theorem flatMap_filter {A B : Type} (p : A → Bool) (f : A → List B) (xs : List A) :
    (xs.filter p).flatMap f = xs.flatMap fun x => if p x then f x else [] := by
  induction xs with
  | nil => rfl
  | cons x xs ih => cases hx : p x <;> simp [hx, ih]

theorem toList_escapeLabel (v : String) : (escapeLabel v).toList = Exposition.escape v.toList := by
  unfold escapeLabel
  rw [toList_foldl (f := Exposition.escapeChar)]
  · simp [Exposition.escape]
  · intro out c
    unfold Exposition.escapeChar
    split <;> simp_all

variable {rangeName : UInt32 → String} {nowMs : ℤ}

/-- The sample of one counter of an address. -/
def sampleOf (rangeName : UInt32 → String) (nowMs : ℤ) (ip : UInt32) (s : String × ℕ) :
    Exposition.Sample :=
  ⟨s.1.toList, [("ip".toList, (ipv4Display ip).toList), ("range".toList, (rangeName ip).toList)],
    s.2, some nowMs⟩

/-- Nothing of a printed address needs an escape. -/
theorem escape_ipv4Display (ip : UInt32) :
    Exposition.escape (ipv4Display ip).toList = (ipv4Display ip).toList := by
  have plain : ∀ n, Exposition.escape (Nat.toDigits 10 n) = Nat.toDigits 10 n := by
    intro n
    apply Exposition.escape_of_plain
    intro c hc
    have digit := Nat.isDigit_of_mem_toDigits (by decide) (by decide) hc
    exact ⟨Exposition.ne_of_isDigit digit (by decide), Exposition.ne_of_isDigit digit (by decide),
      Exposition.ne_of_isDigit digit (by decide)⟩
  have dot : ∀ s, Exposition.escape ('.' :: s) = '.' :: Exposition.escape s := fun _ => rfl
  simp only [toList_ipv4Display, Exposition.escape_append, dot, plain]

theorem toList_toString_int (n : ℤ) : (toString n).toList = Exposition.encodeInt n := by
  rw [Exposition.encodeInt, Int.toString_eq_repr, Int.repr_eq_if]
  by_cases neg : n < 0
  · have magnitude : (-n).toNat = n.natAbs := by omega
    rw [if_neg (by omega), if_pos neg, magnitude]
    simp [Nat.toList_repr]
  · have magnitude : n.toNat = n.natAbs := by omega
    rw [if_pos (by omega), if_neg neg, magnitude]
    simp [Nat.toList_repr]

theorem toList_promLine (ip : UInt32) (s : String × ℕ) :
    (promLine s.1 (ipv4Display ip) (escapeLabel (rangeName ip)) s.2 nowMs).toList =
      Exposition.encodeSample (sampleOf rangeName nowMs ip s) ++ ['\n'] := by
  have same : ∀ t : String, toString t = t := fun _ => rfl
  have value : ∀ n : ℕ, (toString n).toList = Nat.toDigits 10 n := fun _ => Nat.toList_repr
  simp only [promLine, sampleOf, Exposition.encodeSample, Exposition.encodeLabels,
    Exposition.encodeLabel, Exposition.encodeTimestamp, escape_ipv4Display, toList_escapeLabel,
    same, value, toList_toString_int, String.toList_append]
  simp

/-- The samples of the given series of the addresses, in their order. -/
def samplesOf (rangeName : UInt32 → String) (nowMs : ℤ) (shown : UInt32 → List (String × ℕ))
    (ips : List UInt32) : List Exposition.Sample :=
  ips.flatMap fun ip => (shown ip).map (sampleOf rangeName nowMs ip)

theorem encode_samplesOf (shown : UInt32 → List (String × ℕ)) (ips : List UInt32) :
    Exposition.encode (samplesOf rangeName nowMs shown ips) = ips.flatMap fun ip =>
      (shown ip).flatMap fun s =>
        Exposition.encodeSample (sampleOf rangeName nowMs ip s) ++ ['\n'] := by
  simp [Exposition.encode, samplesOf, List.flatMap_assoc, List.flatMap_map]

theorem toList_renderPromLines (totals : Table UInt32 IpTotals) (keys : List UInt32) :
    (renderPromLines totals rangeName nowMs keys).toList = Exposition.encode
      (samplesOf rangeName nowMs (trafficShown totals) (keys.insertionSort (· ≤ ·))) := by
  rw [encode_samplesOf, renderPromLines, toList_foldl, String.toList_empty, List.nil_append]
  intro out ip
  unfold trafficShown
  cases totals ip with
  | none => simp
  | some t =>
    have silent : t.rxBytes ||| t.txBytes ||| t.rxPackets ||| t.txPackets = 0 ↔
        ¬ (t.rxBytes ≠ 0 ∨ t.txBytes ≠ 0 ∨ t.rxPackets ≠ 0 ∨ t.txPackets ≠ 0) := by
      simp only [Nat.or_eq_zero_iff]
      tauto
    simp only [silent, ite_not]
    split_ifs
    · apply toList_foldl
      intro out s
      rw [String.toList_append, toList_promLine]
    · simp

theorem toList_renderPromLinesPolicer (totals : Table UInt32 PolicerIpTotals)
    (keys : List UInt32) :
    (renderPromLinesPolicer totals rangeName nowMs keys).toList = Exposition.encode
      (samplesOf rangeName nowMs (policerShown totals) (keys.insertionSort (· ≤ ·))) := by
  rw [encode_samplesOf, renderPromLinesPolicer, toList_foldl, String.toList_empty,
    List.nil_append]
  intro out ip
  unfold policerShown
  cases totals ip with
  | none => simp
  | some t =>
    rw [flatMap_filter]
    apply toList_foldl
    intro out s
    by_cases zero : s.2 = 0
    · simp [zero]
    · simp only [zero, if_false, decide_not, decide_false, Bool.not_false, if_true,
        String.toList_append, toList_promLine]

/-! ### The readings -/

theorem wellFormed_sampleOf {ip : UInt32} {s : String × ℕ}
    (h : Exposition.isName Exposition.nameStart Exposition.nameRest s.1.toList) :
    (sampleOf rangeName nowMs ip s).WellFormed where
  name := h
  labels := by
    intro l hl
    simp only [sampleOf, List.mem_cons, List.not_mem_nil, or_false] at hl
    have ip : Exposition.isName Exposition.labelStart Exposition.labelRest "ip".toList := by decide
    have range : Exposition.isName Exposition.labelStart Exposition.labelRest "range".toList := by
      decide
    rcases hl with rfl | rfl
    · exact ip
    · exact range

theorem ofSample_sampleOf (ip : UInt32) (s : String × ℕ) :
    PromReading.ofSample (sampleOf rangeName nowMs ip s) =
      some ⟨s.1, ip, rangeName ip, s.2, nowMs⟩ := by
  have addr : (sampleOf rangeName nowMs ip s).labels.lookup "ip".toList =
      some (ipv4Display ip).toList := rfl
  have range : (sampleOf rangeName nowMs ip s).labels.lookup "range".toList =
      some (rangeName ip).toList := rfl
  rw [PromReading.ofSample, addr, range]
  simp [sampleOf, parseIpv4_ipv4Display]

/-- The reading of one counter of an address. -/
def promReading (rangeName : UInt32 → String) (nowMs : ℤ) (ip : UInt32) (s : String × ℕ) :
    PromReading :=
  ⟨s.1, ip, rangeName ip, s.2, nowMs⟩

theorem mapM_samplesOf (shown : UInt32 → List (String × ℕ)) (ips : List UInt32) :
    (samplesOf rangeName nowMs shown ips).mapM PromReading.ofSample =
      some (ips.flatMap fun ip => (shown ip).map (promReading rangeName nowMs ip)) := by
  let pairs := ips.flatMap fun ip => (shown ip).map fun s => (ip, s)
  have samples : samplesOf rangeName nowMs shown ips =
      pairs.map fun p => sampleOf rangeName nowMs p.1 p.2 := by
    simp [pairs, samplesOf, List.map_flatMap, Function.comp_def]
  have said : (ips.flatMap fun ip => (shown ip).map (promReading rangeName nowMs ip)) =
      pairs.map fun p => promReading rangeName nowMs p.1 p.2 := by
    simp [pairs, List.map_flatMap, Function.comp_def]
  rw [samples, said]
  apply Exposition.mapM_eq_some
  rw [List.forall₂_map_left_iff, List.forall₂_map_right_iff, List.forall₂_same]
  intro p _
  exact ofSample_sampleOf p.1 p.2

/-- A payload that is written from the shown series reads back. -/
theorem readsBack_of_encode {payload : String} {shown : UInt32 → List (String × ℕ)}
    {keys : List UInt32} (known : ∀ ip, shown ip ≠ [] → ip ∈ keys) (distinct : keys.Nodup)
    (named : ∀ ip, ∀ s ∈ shown ip,
      Exposition.isName Exposition.nameStart Exposition.nameRest s.1.toList)
    (text : payload.toList = Exposition.encode
      (samplesOf rangeName nowMs shown (keys.insertionSort (· ≤ ·)))) :
    ReadsBack payload shown rangeName nowMs := by
  have perm := List.perm_insertionSort (· ≤ ·) keys
  have ascending : (keys.insertionSort (· ≤ ·)).Pairwise (· < ·) := by
    have sorted := List.pairwise_insertionSort (· ≤ · : UInt32 → UInt32 → Prop) keys
    exact (sorted.and (perm.nodup_iff.mpr distinct)).imp fun h =>
      UInt32.lt_of_le_of_ne h.1 h.2
  have wellFormed : ∀ s ∈ samplesOf rangeName nowMs shown (keys.insertionSort (· ≤ ·)),
      s.WellFormed := by
    intro s hs
    simp only [samplesOf, List.mem_flatMap, List.mem_map] at hs
    obtain ⟨ip, -, c, hc, rfl⟩ := hs
    exact wellFormed_sampleOf (named ip c hc)
  refine ⟨(keys.insertionSort (· ≤ ·)).filter fun ip => shown ip ≠ [], ascending.filter _, ?_, ?_⟩
  · intro ip
    simp only [List.mem_filter, perm.mem_iff, decide_eq_true_eq]
    exact ⟨And.right, fun h => ⟨known ip h, h⟩⟩
  · have same : ((keys.insertionSort (· ≤ ·)).filter fun ip => shown ip ≠ []).flatMap (fun ip =>
        (shown ip).map (promReading rangeName nowMs ip)) =
        (keys.insertionSort (· ≤ ·)).flatMap fun ip =>
          (shown ip).map (promReading rangeName nowMs ip) := by
      rw [flatMap_filter]
      congr 1
      funext ip
      by_cases h : shown ip = [] <;> simp [h]
    rw [promReadings, text, Exposition.decode_encode wellFormed]
    exact (mapM_samplesOf shown _).trans (congrArg some same.symm)

/-- A payload that is written from the series of each entry reads back. -/
theorem readsBack_of_entries {τ : Type} {payload : String} {totals : Table UInt32 τ}
    {keys : List UInt32} {shown : UInt32 → List (String × ℕ)} (series : τ → List (String × ℕ))
    (visits : Visits keys fun ip => (totals ip).isSome)
    (each : ∀ ip, shown ip = (totals ip).elim [] series)
    (named : ∀ t, ∀ s ∈ series t,
      Exposition.isName Exposition.nameStart Exposition.nameRest s.1.toList)
    (text : payload.toList = Exposition.encode
      (samplesOf rangeName nowMs shown (keys.insertionSort (· ≤ ·)))) :
    ReadsBack payload shown rangeName nowMs := by
  apply readsBack_of_encode _ visits.nodup _ text
  · intro ip h
    rw [each] at h
    rw [visits.mem_iff]
    cases ht : totals ip with
    | none => simp [ht] at h
    | some t => rfl
  · intro ip s hs
    rw [each] at hs
    cases ht : totals ip with
    | none => simp [ht] at hs
    | some t =>
      rw [ht] at hs
      exact named t s hs

/-- The names of the series do not depend on their values. -/
theorem named_of_same {series fixed : List (String × ℕ)}
    (same : series.map Prod.fst = fixed.map Prod.fst)
    (named : ∀ n ∈ fixed.map Prod.fst,
      Exposition.isName Exposition.nameStart Exposition.nameRest n.toList) :
    ∀ s ∈ series, Exposition.isName Exposition.nameStart Exposition.nameRest s.1.toList := by
  intro s hs
  apply named
  rw [← same]
  exact List.mem_map_of_mem hs

theorem named_series (t : IpTotals) : ∀ s ∈ t.series,
    Exposition.isName Exposition.nameStart Exposition.nameRest s.1.toList :=
  named_of_same (show t.series.map Prod.fst = ({} : IpTotals).series.map Prod.fst from rfl)
    (by decide)

theorem named_policer_series (t : PolicerIpTotals) : ∀ s ∈ t.series,
    Exposition.isName Exposition.nameStart Exposition.nameRest s.1.toList :=
  named_of_same
    (show t.series.map Prod.fst = ({} : PolicerIpTotals).series.map Prod.fst from rfl) (by decide)

theorem readsBack_renderPromLines {totals : Table UInt32 IpTotals} {keys : List UInt32}
    (visits : Visits keys fun ip => (totals ip).isSome) :
    ReadsBack (renderPromLines totals rangeName nowMs keys) (trafficShown totals) rangeName
      nowMs := by
  let series (t : IpTotals) : List (String × ℕ) :=
    if t.rxBytes ≠ 0 ∨ t.txBytes ≠ 0 ∨ t.rxPackets ≠ 0 ∨ t.txPackets ≠ 0 then t.series else []
  apply readsBack_of_entries series visits _ _ (toList_renderPromLines totals keys)
  · intro ip
    unfold trafficShown
    cases totals ip <;> rfl
  · intro t s hs
    simp only [series] at hs
    split_ifs at hs
    · exact named_series t s hs
    · cases hs

theorem readsBack_renderPromLinesPolicer {totals : Table UInt32 PolicerIpTotals}
    {keys : List UInt32} (visits : Visits keys fun ip => (totals ip).isSome) :
    ReadsBack (renderPromLinesPolicer totals rangeName nowMs keys) (policerShown totals)
      rangeName nowMs := by
  let series (t : PolicerIpTotals) : List (String × ℕ) := t.series.filter fun s => s.2 ≠ 0
  apply readsBack_of_entries series visits _ _ (toList_renderPromLinesPolicer totals keys)
  · intro ip
    unfold policerShown
    cases totals ip <;> rfl
  · intro t s hs
    exact named_policer_series t s (List.mem_of_mem_filter hs)

/-- Whatever the names of the ranges are, both payloads read back as exactly the shown
series. -/
theorem payloads_read_back (totals : Table UInt32 IpTotals) (policed : Table UInt32 PolicerIpTotals)
    (keys policedKeys : List UInt32) (visits : Visits keys fun ip => (totals ip).isSome)
    (policedVisits : Visits policedKeys fun ip => (policed ip).isSome)
    (rangeName : UInt32 → String) (nowMs : ℤ) :
    ReadsBack (renderPromLines totals rangeName nowMs keys) (trafficShown totals) rangeName
        nowMs ∧
      ReadsBack (renderPromLinesPolicer policed rangeName nowMs policedKeys) (policerShown policed)
        rangeName nowMs :=
  ⟨readsBack_renderPromLines visits, readsBack_renderPromLinesPolicer policedVisits⟩

/-- A range name that ends in a backslash, and two addresses of which one is silent. -/
theorem payloads_read_back_hostile :
    ReadsBack (renderPromLines (fun ip => if ip = 5 then some ⟨3, 0, 1, 0⟩ else
          if ip = 2 then some {} else none) (fun _ => "a\"\n\\") 7 [5, 2])
        (trafficShown fun ip => if ip = 5 then some ⟨3, 0, 1, 0⟩ else
          if ip = 2 then some {} else none) (fun _ => "a\"\n\\") 7 ∧
      ReadsBack (renderPromLinesPolicer (fun _ => none) (fun _ => "a\"\n\\") 7 [])
        (policerShown fun _ => none) (fun _ => "a\"\n\\") 7 := by
  apply payloads_read_back
  · refine ⟨by decide, ?_⟩
    intro ip
    by_cases h5 : ip = 5
    · simp [h5]
    · by_cases h2 : ip = 2 <;> simp [h5, h2]
  · exact ⟨by decide, fun ip => by simp⟩

end VmWatcher

import VmWatcher.Core.Proofs.Ranges
import VmWatcher.Daemon.Snapshot
import VmWatcher.Misc.Buckets

/-!
# What a snapshot shows

The totals are visited in an arbitrary order. Whatever it is, a snapshot has for each range
the addresses of that range and no others, each once, and the counters of a range add up
those of its rows.
-/

namespace VmWatcher

open Buckets

/-! ### Ranges that add up -/

namespace RangeStats

/-- The counters of a range add up those of its rows, as a `u64` does. -/
structure AddsUp (rs : RangeStats) : Prop where
  rxBytes : rs.rxBytes = (rs.ips.map fun row => row.2.rxBytes).sum % 2 ^ 64
  txBytes : rs.txBytes = (rs.ips.map fun row => row.2.txBytes).sum % 2 ^ 64
  rxPackets : rs.rxPackets = (rs.ips.map fun row => row.2.rxPackets).sum % 2 ^ 64
  txPackets : rs.txPackets = (rs.ips.map fun row => row.2.txPackets).sum % 2 ^ 64
  rxDroppedBytes : rs.rxDroppedBytes = (rs.ips.map fun row => row.2.rxDroppedBytes).sum % 2 ^ 64
  txDroppedBytes : rs.txDroppedBytes = (rs.ips.map fun row => row.2.txDroppedBytes).sum % 2 ^ 64
  rxDroppedPackets : rs.rxDroppedPackets = (rs.ips.map fun row => row.2.rxDroppedPackets).sum % 2 ^ 64
  txDroppedPackets : rs.txDroppedPackets = (rs.ips.map fun row => row.2.txDroppedPackets).sum % 2 ^ 64

variable {rs : RangeStats}

theorem addsUp_ofRange (range : IpRange) : (ofRange range).AddsUp :=
  ⟨rfl, rfl, rfl, rfl, rfl, rfl, rfl, rfl⟩

theorem AddsUp.addIp (h : rs.AddsUp) (ip : UInt32) (stats : IpStats) :
    (rs.addIp ip stats).AddsUp := by
  obtain ⟨h₁, h₂, h₃, h₄, h₅, h₆, h₇, h₈⟩ := h
  constructor <;> simp [RangeStats.addIp, u64Add, *]

theorem AddsUp.addIdle (h : rs.AddsUp) (ip : UInt32) : (rs.addIdle ip).AddsUp := by
  obtain ⟨h₁, h₂, h₃, h₄, h₅, h₆, h₇, h₈⟩ := h
  constructor <;> simp [RangeStats.addIdle, *]

end RangeStats

/-! ### The addresses of a range -/

namespace IpRange

variable {range : IpRange} {ip : UInt32}

theorem mem_addresses : ip ∈ range.addresses ↔ range.contains ip = true := by
  rw [contains_iff, UInt32.le_iff_toNat_le, UInt32.le_iff_toNat_le]
  simp only [addresses, List.mem_map, List.mem_range'_1]
  constructor
  · intro h
    obtain ⟨n, ⟨least, most⟩, rfl⟩ := h
    have fits : range.stop.toNat < UInt32.size := range.stop.toNat_lt
    rw [UInt32.toNat_ofNat_of_lt' (by omega)]
    omega
  · intro h
    exact ⟨ip.toNat, by omega, UInt32.ofNat_toNat⟩

theorem nodup_addresses : range.addresses.Nodup := by
  refine List.Nodup.map_on ?_ List.nodup_range'
  intro m hm n hn same
  rw [List.mem_range'_1] at hm hn
  have fits : range.stop.toNat < UInt32.size := range.stop.toNat_lt
  have eq := congrArg UInt32.toNat same
  rwa [UInt32.toNat_ofNat_of_lt' (by omega), UInt32.toNat_ofNat_of_lt' (by omega)] at eq

/-- Of ranges that are apart, the first that contains an address is the only one. -/
theorem findIdx?_contains_iff {ranges : List IpRange} (apart : ranges.Pairwise Apart) {i : ℕ}
    (hrange : ranges[i]? = some range) :
    ranges.findIdx? (·.contains ip) = some i ↔ range.contains ip = true := by
  obtain ⟨bound, hget⟩ := List.getElem?_eq_some_iff.mp hrange
  rw [List.findIdx?_eq_some_iff_getElem]
  constructor
  · intro h
    obtain ⟨_, inside, -⟩ := h
    rwa [hget] at inside
  · intro inside
    refine ⟨bound, by rwa [hget], fun j less earlier => ?_⟩
    have differ := List.pairwise_iff_getElem.mp apart j i (by omega) bound less
    rw [hget] at differ
    exact differ ip ⟨earlier, inside⟩

end IpRange

/-! ### Rows -/

namespace Snapshot

variable {ranges : List IpRange} {totals : Table UInt32 IpStats} {ips : List UInt32}
variable {showIdleIps : Bool}

/-- What a snapshot of the totals shows of a range. -/
structure ShowsRange (showIdleIps : Bool) (totals : Table UInt32 IpStats) (range : IpRange)
    (rs : RangeStats) : Prop where
  name : rs.name = range.name
  display : rs.range = range.display
  addsUp : rs.AddsUp
  nodup : (rs.ips.map Prod.fst).Nodup
  rows : ∀ ip stats, (ip, stats) ∈ rs.ips ↔ range.contains ip = true ∧
    (totals ip = some stats ∨
      totals ip = none ∧ stats = {} ∧ showIdleIps = true ∧ range.len ≤ idleEnumCap)

/-- The range that takes an address, if it owns totals. -/
def place (ranges : List IpRange) (totals : Table UInt32 IpStats) (ip : UInt32) : Option ℕ :=
  (totals ip).bind fun _ => ranges.findIdx? (·.contains ip)

theorem addObserved_eq : addObserved ranges totals =
    put (place ranges totals) fun rs ip => rs.addIp ip ((totals ip).getD {}) := by
  funext snapRanges ip
  unfold addObserved put place
  cases htotals : totals ip with
  | none => rfl
  | some stats =>
    cases ranges.findIdx? (·.contains ip) with
    | none => rfl
    | some i => simp [htotals]

theorem place_eq_some_iff (apart : ranges.Pairwise IpRange.Apart) {i : ℕ} {range : IpRange}
    (hrange : ranges[i]? = some range) {ip : UInt32} :
    place ranges totals ip = some i ↔ (totals ip).isSome ∧ range.contains ip = true := by
  have found : ranges.findIdx? (·.contains ip) = some i ↔ range.contains ip = true :=
    IpRange.findIdx?_contains_iff apart hrange
  unfold place
  cases totals ip with
  | none => simp
  | some stats => simp [found]

/-- Adding addresses one by one appends their rows. -/
theorem foldl_addIp (xs : List UInt32) (rs : RangeStats) :
    (xs.foldl (fun rs ip => rs.addIp ip ((totals ip).getD {})) rs).ips =
      rs.ips ++ xs.map fun ip => (ip, (totals ip).getD {}) := by
  induction xs generalizing rs with
  | nil => simp
  | cons ip xs ih =>
    rw [List.foldl_cons, ih]
    simp [RangeStats.addIp]

/-- A fold that keeps what each of its steps keeps. -/
theorem foldl_keeps {α : Type} {p : RangeStats → Prop} {step : RangeStats → α → RangeStats}
    (keeps : ∀ rs a, p rs → p (step rs a)) (xs : List α) {rs : RangeStats} (h : p rs) :
    p (xs.foldl step rs) := by
  induction xs generalizing rs with
  | nil => exact h
  | cons a xs ih => exact ih (keeps rs a h)

/-- What idle rows add: those of the addresses without totals, if the range is enumerated. -/
theorem addIdleIps_ips (rs : RangeStats) (range : IpRange) :
    (addIdleIps totals rs range).ips = rs.ips ++
      if range.len ≤ idleEnumCap then
        (range.addresses.filter fun ip => (totals ip).isNone).map fun ip => (ip, ({} : IpStats))
      else [] := by
  have all (xs : List UInt32) (rs : RangeStats) :
      (xs.foldl (fun rs ip => if (totals ip).isSome then rs else rs.addIdle ip) rs).ips =
        rs.ips ++ (xs.filter fun ip => (totals ip).isNone).map fun ip => (ip, ({} : IpStats)) := by
    induction xs generalizing rs with
    | nil => simp
    | cons ip xs ih =>
      rw [List.foldl_cons, ih]
      cases hip : totals ip with
      | none => simp [hip, RangeStats.addIdle]
      | some stats => simp [hip]
  unfold addIdleIps
  by_cases wide : range.len > idleEnumCap
  · rw [if_pos wide, if_neg (Nat.not_le.mpr wide), List.append_nil]
  · rw [if_neg wide, if_pos (Nat.not_lt.mp wide), all]

/-- The range an observed address goes to, once all are placed. -/
def observed (totals : Table UInt32 IpStats) (range : IpRange) (xs : List UInt32) : RangeStats :=
  xs.foldl (fun rs ip => rs.addIp ip ((totals ip).getD {})) (RangeStats.ofRange range)

/-- The label of the range, and counters that add up. -/
structure Labelled (range : IpRange) (rs : RangeStats) : Prop where
  name : rs.name = range.name
  display : rs.range = range.display
  addsUp : rs.AddsUp

theorem labelled_observed (range : IpRange) (xs : List UInt32) :
    Labelled range (observed totals range xs) := by
  apply foldl_keeps _ xs
  · exact ⟨rfl, rfl, RangeStats.addsUp_ofRange range⟩
  · intro rs ip h
    exact ⟨h.name, h.display, h.addsUp.addIp ip _⟩

theorem Labelled.addIdleIps {range : IpRange} {rs : RangeStats} (h : Labelled range rs) :
    Labelled range (addIdleIps totals rs range) := by
  unfold Snapshot.addIdleIps
  split
  · exact h
  · apply foldl_keeps _ _ h
    intro rs ip h
    split
    · exact h
    · exact ⟨h.name, h.display, h.addsUp.addIdle ip⟩

theorem observed_ips (range : IpRange) (xs : List UInt32) :
    (observed totals range xs).ips = xs.map fun ip => (ip, (totals ip).getD {}) := by
  rw [observed, foldl_addIp]
  rfl

/-- One range of the snapshot. -/
theorem showsRange_observed {range : IpRange} {xs : List UInt32} (distinct : xs.Nodup)
    (mem : ∀ ip, ip ∈ xs ↔ (totals ip).isSome ∧ range.contains ip = true) :
    ShowsRange showIdleIps totals range
      (if showIdleIps then addIdleIps totals (observed totals range xs) range
        else observed totals range xs) := by
  have start : Labelled range (observed totals range xs) := labelled_observed range xs
  have rows (ip : UInt32) (stats : IpStats) :
      (ip, stats) ∈ (xs.map fun ip => (ip, (totals ip).getD {})) ↔
        range.contains ip = true ∧ totals ip = some stats := by
    simp only [List.mem_map, Prod.mk.injEq]
    constructor
    · intro h
      obtain ⟨_, owned, rfl, rfl⟩ := h
      obtain ⟨present, inside⟩ := (mem _).mp owned
      obtain ⟨stats, htotals⟩ := Option.isSome_iff_exists.mp present
      exact ⟨inside, by simp [htotals]⟩
    · intro h
      obtain ⟨inside, htotals⟩ := h
      exact ⟨ip, (mem ip).mpr ⟨by rw [htotals]; rfl, inside⟩, rfl, by simp [htotals]⟩
  cases showIdleIps with
  | false =>
    refine ⟨start.name, start.display, start.addsUp, ?_, fun ip stats => ?_⟩
    · simpa [observed_ips, Function.comp_def] using distinct
    · simp only [Bool.false_eq_true, if_false, observed_ips, rows, false_and, and_false, or_false]
  | true =>
    have all : Labelled range (addIdleIps totals (observed totals range xs) range) :=
      start.addIdleIps
    refine ⟨all.name, all.display, all.addsUp, ?_, fun ip stats => ?_⟩
    · simp only [if_true, addIdleIps_ips, observed_ips, List.map_append, List.map_map]
      by_cases narrow : range.len ≤ idleEnumCap
      · simp only [if_pos narrow, List.map_map, Function.comp_def, List.map_id']
        refine List.nodup_append.mpr ⟨distinct, IpRange.nodup_addresses.filter _, ?_⟩
        rintro ip owned ip' idle rfl
        have present := ((mem ip).mp owned).1
        have absent := (List.mem_filter.mp idle).2
        simp [Option.isNone_iff_eq_none.mp absent] at present
      · simpa [if_neg narrow, Function.comp_def] using distinct
    · simp only [if_true, addIdleIps_ips, observed_ips, List.mem_append, rows]
      by_cases narrow : range.len ≤ idleEnumCap
      · simp only [if_pos narrow, List.mem_map, List.mem_filter, IpRange.mem_addresses,
          Prod.mk.injEq, Option.isNone_iff_eq_none]
        grind
      · rw [if_neg narrow]
        simp [narrow]

/-- However the totals are enumerated, the snapshot has for each range exactly the addresses
of that range. -/
theorem ofTotals_shows (apart : ranges.Pairwise IpRange.Apart)
    (visits : Visits ips fun ip => (totals ip).isSome) :
    List.Forall₂ (ShowsRange showIdleIps totals) ranges
      (ofTotals ranges showIdleIps totals ips).ranges := by
  have placed (i : ℕ) : (ips.foldl (addObserved ranges totals)
      (ranges.map RangeStats.ofRange))[i]? = ranges[i]?.map fun range =>
        observed totals range (own (place ranges totals) ips i) := by
    rw [addObserved_eq, getElem?_foldl_put, List.getElem?_map, Option.map_map]
    rfl
  have shown (i : ℕ) : (ofTotals ranges showIdleIps totals ips).ranges[i]? =
      ranges[i]?.map fun range =>
        if showIdleIps then
          addIdleIps totals (observed totals range (own (place ranges totals) ips i)) range
        else observed totals range (own (place ranges totals) ips i) := by
    unfold ofTotals
    cases showIdleIps with
    | false => simp [placed]
    | true =>
      simp only [if_true, List.getElem?_zipWith, placed]
      cases ranges[i]? <;> rfl
  refine forall₂_iff_getElem?.mpr fun i => ?_
  rw [shown]
  cases hrange : ranges[i]? with
  | none => exact .none
  | some range =>
    refine .some (showsRange_observed (visits.nodup.filter _) fun ip => ?_)
    rw [mem_own, visits.mem_iff, place_eq_some_iff apart hrange]
    exact and_self_left

end Snapshot

end VmWatcher

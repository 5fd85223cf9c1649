import VmWatcher.Daemon.Metering
import Mathlib.Algebra.Order.BigOperators.Group.List
import Mathlib.Algebra.Order.Group.Nat

/-!
# What the collector reports was counted

Over any run, no key is reported to have counted more than the data path counted into it
(`reported_le_counted`), and a complete poll reports exactly what was counted since the
one before, unless an entry was deleted and created again in between (`poll_exact_iff`).
-/

namespace VmWatcher

namespace Tally

/-- A loop that adds an amount for each entry of a kind to a `u64`. -/
theorem foldl_u64Add {S E : Type} {f : S → E → S} (m : S → ℕ) (p : E → Bool) (amount : E → ℕ)
    (step : ∀ s e, m s < 2 ^ 64 → m (f s e) = u64Add (m s) (if p e then amount e else 0))
    (es : List E) (s : S) (h : m s < 2 ^ 64) :
    m (es.foldl f s) = u64Add (m s) ((es.filter p).map amount).sum := by
  induction es generalizing s with
  | nil => exact (u64Add_zero h).symm
  | cons e es ih =>
    have next : m (f s e) < 2 ^ 64 := step s e h ▸ u64Add_lt _ _
    rw [List.foldl_cons, ih _ next, step s e h, u64Add_u64Add]
    by_cases he : p e <;> simp [he]

/-- Sums that agree although no term of the one exceeds that of the other. -/
theorem sum_map_eq_iff {E : Type} {es : List E} {f g : E → ℕ} (le : ∀ e ∈ es, f e ≤ g e) :
    (es.map f).sum = (es.map g).sum ↔ ∀ e ∈ es, f e = g e := by
  induction es with
  | nil => simp
  | cons e es ih =>
    have rest := ih fun e' he' => le e' (List.mem_cons_of_mem _ he')
    have head := le e List.mem_cons_self
    have tail : (es.map f).sum ≤ (es.map g).sum :=
      List.sum_le_sum fun e' he' => le e' (List.mem_cons_of_mem _ he')
    simp only [List.map_cons, List.sum_cons, List.forall_mem_cons]
    constructor
    · intro total
      exact ⟨by omega, rest.mp (by omega)⟩
    · intro h
      obtain ⟨hd, tl⟩ := h
      rw [hd, rest.mpr tl]

/-- A `u64` that is summed up below its due has it all when it is due that much and does
not wrap. -/
theorem sum_mod_eq_iff {E : Type} {es : List E} {f g : E → ℕ} (le : ∀ e ∈ es, f e ≤ g e) :
    (es.map f).sum % 2 ^ 64 = (es.map g).sum ↔
      (∀ e ∈ es, f e = g e) ∧ (es.map g).sum < 2 ^ 64 := by
  have below : (es.map f).sum ≤ (es.map g).sum := List.sum_le_sum le
  constructor
  · intro same
    have small : (es.map g).sum < 2 ^ 64 := same ▸ Nat.mod_lt _ (Nat.two_pow_pos 64)
    rw [Nat.mod_eq_of_lt (below.trans_lt small)] at same
    exact ⟨(sum_map_eq_iff le).mp same, small⟩
  · intro h
    obtain ⟨each, small⟩ := h
    rw [(sum_map_eq_iff le).mpr each, Nat.mod_eq_of_lt small]

end Tally

namespace Collector

/-! ### What a poll adds -/

section Adds

variable (primed : Bool)

theorem get_since (v p : TrafficValue) (n : TrafficCounter) :
    Tally.get (Delta.since v p) n = Tally.get v n - Tally.get p n := by
  cases n <;> rfl

theorem get_add (d other : Delta) (n : TrafficCounter) :
    Tally.get (d.add other) n = u64Add (Tally.get d n) (Tally.get other n) := by
  cases n <;> rfl

theorem of_addKey (prev : Table TrafficKey TrafficValue) (ip : UInt32) (n : TrafficCounter)
    (deltas : Table UInt32 Delta) (e : TrafficKey × TrafficValue)
    (h : Tally.of (deltas ip) n < 2 ^ 64) :
    Tally.of (addKey primed prev deltas e ip) n = u64Add (Tally.of (deltas ip) n)
      (if decide (e.1.ipv4 = ip) then Tally.gain (baseline primed {} (prev e.1)) e.2 n else 0) := by
  unfold addKey Tally.gain
  cases baseline primed {} (prev e.1) with
  | none => simp [u64Add_zero h]
  | some p =>
    dsimp only
    by_cases unmoved : (Delta.since e.2 p).isZero = true
    · rw [if_pos unmoved]
      have zero : Delta.since e.2 p = {} := of_decide_eq_true unmoved
      have none_gained : Tally.get e.2 n - Tally.get p n = 0 := by
        rw [← get_since, zero]
        exact Tally.get_zero n
      simp [none_gained, u64Add_zero h]
    · rw [if_neg unmoved]
      by_cases hip : ip = e.1.ipv4
      · subst hip
        rw [Table.insert_self, Tally.of_some, get_add, get_since, if_pos (decide_eq_true rfl)]
        rfl
      · simp [hip, Ne.symm hip, u64Add_zero h]

theorem get_addKey6 (prev : Table UInt32 TrafficValue) (n : TrafficCounter) (d6 : Delta)
    (e : UInt32 × TrafficValue) (h : Tally.get d6 n < 2 ^ 64) :
    Tally.get (addKey6 primed prev d6 e) n = u64Add (Tally.get d6 n)
      (if true then Tally.gain (baseline primed {} (prev e.1)) e.2 n else 0) := by
  unfold addKey6 Tally.gain
  cases baseline primed {} (prev e.1) with
  | none => simp [u64Add_zero h]
  | some p =>
    dsimp only
    by_cases unmoved : (Delta.since e.2 p).isZero = true
    · rw [if_pos unmoved]
      have zero : Delta.since e.2 p = {} := of_decide_eq_true unmoved
      have none_gained : Tally.get e.2 n - Tally.get p n = 0 := by
        rw [← get_since, zero]
        exact Tally.get_zero n
      simp [none_gained, u64Add_zero h]
    · rw [if_neg unmoved, get_add, get_since]
      rfl

theorem traffic_addPolicer (stats : IpStats) (direction : UInt8) (d : PolicerStats)
    (n : TrafficCounter) : (stats.addPolicer direction d).traffic n = stats.traffic n := by
  unfold IpStats.addPolicer
  split <;> cases n <;> rfl

theorem verdicts_addPolicer (stats : IpStats) (direction : UInt8) (d : PolicerStats) (isTx : Bool)
    (n : PolicerCounter) (h : stats.verdicts isTx n < 2 ^ 64) :
    (stats.addPolicer direction d).verdicts isTx n = u64Add (stats.verdicts isTx n)
      (if decide (direction = dirTx) = isTx then Tally.get d n else 0) := by
  unfold IpStats.addPolicer
  by_cases hdir : direction = dirTx
  · cases isTx with
    | true => cases n <;> simp [hdir, IpStats.verdicts, Tally.get]
    | false => cases n <;> simpa [hdir, IpStats.verdicts] using (u64Add_zero h).symm
  · cases isTx with
    | true => cases n <;> simpa [hdir, IpStats.verdicts] using (u64Add_zero h).symm
    | false => cases n <;> simp [hdir, IpStats.verdicts, Tally.get]

theorem get_policerSince (v p : PolicerStats) (n : PolicerCounter) :
    Tally.get (v.since p) n = Tally.get v n - Tally.get p n := by
  cases n <;> rfl

theorem traffic_addVerdicts (prev : Table LimitKey PolicerStats) (ip : UInt32) (n : TrafficCounter)
    (totals : Table UInt32 IpStats) (e : LimitKey × PolicerStats) :
    ((addVerdicts primed prev totals e ip).getD {}).traffic n =
      ((totals ip).getD {}).traffic n := by
  unfold addVerdicts
  cases baseline primed ⟨0, 0, 0, 0⟩ (prev e.1) with
  | none => rfl
  | some p =>
    dsimp only
    by_cases unmoved : e.2.since p = ⟨0, 0, 0, 0⟩
    · rw [if_pos unmoved]
    · rw [if_neg unmoved]
      by_cases hip : ip = e.1.ipv4
      · subst hip
        simp [traffic_addPolicer]
      · simp [hip]

theorem verdicts_addVerdicts (prev : Table LimitKey PolicerStats) (ip : UInt32) (isTx : Bool)
    (n : PolicerCounter) (totals : Table UInt32 IpStats) (e : LimitKey × PolicerStats)
    (h : ((totals ip).getD {}).verdicts isTx n < 2 ^ 64) :
    ((addVerdicts primed prev totals e ip).getD {}).verdicts isTx n =
      u64Add (((totals ip).getD {}).verdicts isTx n)
        (if decide (e.1.ipv4 = ip) && decide (decide (e.1.direction = dirTx) = isTx) then
          Tally.gain (baseline primed ⟨0, 0, 0, 0⟩ (prev e.1)) e.2 n else 0) := by
  unfold addVerdicts Tally.gain
  cases baseline primed ⟨0, 0, 0, 0⟩ (prev e.1) with
  | none => simp [u64Add_zero h]
  | some p =>
    dsimp only
    by_cases unmoved : e.2.since p = ⟨0, 0, 0, 0⟩
    · rw [if_pos unmoved]
      have none_gained : Tally.get e.2 n - Tally.get p n = 0 := by
        rw [← get_policerSince, unmoved]
        exact Tally.get_zero n
      simp [none_gained, u64Add_zero h]
    · rw [if_neg unmoved]
      by_cases hip : ip = e.1.ipv4
      · subst hip
        simp [verdicts_addPolicer _ _ _ _ _ h, get_policerSince]
      · simp [hip, Ne.symm hip, u64Add_zero h]

end Adds

section Poll

variable (c : Collector) (inputs : PollInputs) (elapsed : Bool)

/-- The totals a poll keeps: a complete one drops the addresses that own no key. -/
def kept (ip : UInt32) : IpStats :=
  if inputs.incomplete ∨ ∃ e ∈ inputs.cur, e.1.ipv4 = ip then (c.totals ip).getD {} else {}

theorem retained (ip : UInt32) :
    ((if inputs.incomplete then c.totals
      else c.totals.retain fun ip _ => (inputs.cur.map Prod.fst).any fun k => k.ipv4 = ip) ip).getD {} =
      c.kept inputs ip := by
  unfold kept
  cases inputs.incomplete with
  | true => simp
  | false =>
    by_cases owned : ∃ e ∈ inputs.cur, e.1.ipv4 = ip
    · have some_key : (inputs.cur.map Prod.fst).any (fun k => k.ipv4 = ip) = true := by
        simpa using owned
      cases h : c.totals ip <;> simp [owned, Table.retain, h, Option.filter, some_key]
    · have no_key : (inputs.cur.map Prod.fst).any (fun k => k.ipv4 = ip) = false := by
        simpa using owned
      cases h : c.totals ip <;> simp [owned, Table.retain, h, Option.filter, no_key]

theorem traffic_addDelta (stats : IpStats) (d : Delta) (n : TrafficCounter) :
    (stats.addDelta d).traffic n = u64Add (stats.traffic n) (Tally.get d n) := by
  cases n <;> rfl

theorem verdicts_addDelta (stats : IpStats) (d : Delta) (isTx : Bool) (n : PolicerCounter) :
    (stats.addDelta d).verdicts isTx n = stats.verdicts isTx n := by
  cases n <;> rfl

theorem traffic_foldl_addVerdicts (primed : Bool) (prev : Table LimitKey PolicerStats)
    (entries : List (LimitKey × PolicerStats)) (totals : Table UInt32 IpStats) (ip : UInt32)
    (n : TrafficCounter) :
    ((entries.foldl (addVerdicts primed prev) totals ip).getD {}).traffic n =
      ((totals ip).getD {}).traffic n := by
  induction entries generalizing totals with
  | nil => rfl
  | cons e entries ih => exact (ih _).trans (traffic_addVerdicts primed prev ip n totals e)

theorem traffic_withDeltas (totals : Table UInt32 IpStats) (deltas : Table UInt32 Delta)
    (ip : UInt32) (n : TrafficCounter) (h : ((totals ip).getD {}).traffic n < 2 ^ 64) :
    ((withDeltas totals deltas ip).getD {}).traffic n =
      u64Add (((totals ip).getD {}).traffic n) (Tally.of (deltas ip) n) := by
  unfold withDeltas
  cases deltas ip with
  | none => simp [u64Add_zero h]
  | some d => exact traffic_addDelta _ d n

theorem verdicts_withDeltas (totals : Table UInt32 IpStats) (deltas : Table UInt32 Delta)
    (ip : UInt32) (isTx : Bool) (n : PolicerCounter) :
    ((withDeltas totals deltas ip).getD {}).verdicts isTx n =
      ((totals ip).getD {}).verdicts isTx n := by
  unfold withDeltas
  cases deltas ip with
  | none => rfl
  | some d => exact verdicts_addDelta _ d isTx n

theorem applyPoll_totals :
    (c.applyPoll inputs true).1.totals = inputs.curPolicer.foldl (addVerdicts c.primed c.prevPolicer)
      (withDeltas (if inputs.incomplete then c.totals
          else c.totals.retain fun ip _ => (inputs.cur.map Prod.fst).any fun k => k.ipv4 = ip)
        (c.deltas inputs true)) := rfl

/-- The delta of an address is what its keys gained. -/
theorem of_deltas (ip : UInt32) (n : TrafficCounter) :
    Tally.of (c.deltas inputs true ip) n = ((inputs.cur.filter (·.1.ipv4 = ip)).map fun e =>
      Tally.gain (baseline c.primed {} (c.prev e.1)) e.2 n).sum % 2 ^ 64 := by
  have empty : Tally.of ((Table.empty : Table UInt32 Delta) ip) n = 0 := Tally.of_none
  have gained := Tally.foldl_u64Add (fun deltas : Table UInt32 Delta => Tally.of (deltas ip) n)
    (fun e => decide (e.1.ipv4 = ip)) _ (of_addKey c.primed c.prev ip n) inputs.cur Table.empty
    (empty ▸ Nat.two_pow_pos 64)
  rw [empty, u64Add, Nat.zero_add] at gained
  exact gained

theorem get_deltas6 (n : TrafficCounter) :
    Tally.get (c.deltas6 inputs true) n = (inputs.cur6.map fun e =>
      Tally.gain (baseline c.primed {} (c.prev6 e.1)) e.2 n).sum % 2 ^ 64 := by
  have empty : Tally.get ({} : Delta) n = 0 := Tally.get_zero n
  have gained := Tally.foldl_u64Add (fun d6 : Delta => Tally.get d6 n) (fun _ => true) _
    (get_addKey6 c.primed c.prev6 n) inputs.cur6 {} (by rw [empty]; exact Nat.two_pow_pos 64)
  rw [empty, u64Add, Nat.zero_add, List.filter_true] at gained
  exact gained

/-- Every total is a `u64`. -/
structure Fits (c : Collector) : Prop where
  traffic : ∀ ip n, ((c.totals ip).getD {}).traffic n < 2 ^ 64
  verdicts : ∀ ip isTx n, ((c.totals ip).getD {}).verdicts isTx n < 2 ^ 64
  ipv6 : ∀ n, c.ipv6.traffic n < 2 ^ 64

variable {c inputs}

theorem traffic_zero (n : TrafficCounter) : ({} : IpStats).traffic n = 0 := by
  cases n <;> rfl

theorem verdicts_zero (isTx : Bool) (n : PolicerCounter) : ({} : IpStats).verdicts isTx n = 0 := by
  cases isTx <;> cases n <;> rfl

theorem fits_new : Collector.new.Fits where
  traffic ip n := by
    show ({} : IpStats).traffic n < _
    rw [traffic_zero]
    exact Nat.two_pow_pos 64
  verdicts ip isTx n := by
    show ({} : IpStats).verdicts isTx n < _
    rw [verdicts_zero]
    exact Nat.two_pow_pos 64
  ipv6 n := by
    show ({} : IpStats).traffic n < _
    rw [traffic_zero]
    exact Nat.two_pow_pos 64

theorem Fits.kept_traffic (fits : c.Fits) (inputs : PollInputs) (ip : UInt32) (n : TrafficCounter) :
    (c.kept inputs ip).traffic n < 2 ^ 64 := by
  unfold kept
  split
  · exact fits.traffic ip n
  · exact fits_new.traffic ip n

theorem Fits.kept_verdicts (fits : c.Fits) (inputs : PollInputs) (ip : UInt32) (isTx : Bool)
    (n : PolicerCounter) : (c.kept inputs ip).verdicts isTx n < 2 ^ 64 := by
  unfold kept
  split
  · exact fits.verdicts ip isTx n
  · exact fits_new.verdicts ip isTx n

/-- A poll adds its deltas to the traffic of an address. -/
theorem Fits.applyPoll_traffic (fits : c.Fits) (ip : UInt32) (n : TrafficCounter) :
    (((c.applyPoll inputs true).1.totals ip).getD {}).traffic n =
      u64Add ((c.kept inputs ip).traffic n) (Tally.of (c.deltas inputs true ip) n) := by
  have kept := fits.kept_traffic inputs ip n
  rw [← retained] at kept ⊢
  rw [applyPoll_totals, traffic_foldl_addVerdicts, traffic_withDeltas _ _ _ _ kept]

theorem applyPoll_ipv6 (elapsed : Bool) (n : TrafficCounter) :
    (c.applyPoll inputs elapsed).1.ipv6.traffic n =
      u64Add (c.ipv6.traffic n) (Tally.get (c.deltas6 inputs elapsed) n) :=
  traffic_addDelta _ _ n

/-- A poll adds to the verdicts of an address what its flow of that direction gained. -/
theorem Fits.applyPoll_verdicts (fits : c.Fits) (ip : UInt32) (isTx : Bool) (n : PolicerCounter) :
    (((c.applyPoll inputs true).1.totals ip).getD {}).verdicts isTx n =
      u64Add ((c.kept inputs ip).verdicts isTx n)
        ((inputs.curPolicer.filter fun e =>
            decide (e.1.ipv4 = ip) && decide (decide (e.1.direction = dirTx) = isTx)).map fun e =>
          Tally.gain (baseline c.primed ⟨0, 0, 0, 0⟩ (c.prevPolicer e.1)) e.2 n).sum := by
  have kept := fits.kept_verdicts inputs ip isTx n
  rw [← retained] at kept ⊢
  rw [← verdicts_withDeltas _ (c.deltas inputs true)] at kept
  have gained := Tally.foldl_u64Add
    (fun totals : Table UInt32 IpStats => ((totals ip).getD {}).verdicts isTx n)
    _ _ (verdicts_addVerdicts c.primed c.prevPolicer ip isTx n) inputs.curPolicer _ kept
  rw [applyPoll_totals, gained, verdicts_withDeltas]

/-- A poll before which no time has passed adds nothing. -/
theorem applyPoll_unelapsed (ip : UInt32) :
    ((c.applyPoll inputs false).1.totals ip).getD {} = c.kept inputs ip := by
  rw [← retained]
  rfl

theorem Fits.applyPoll_ipv6_unelapsed (fits : c.Fits) (n : TrafficCounter) :
    (c.applyPoll inputs false).1.ipv6.traffic n = c.ipv6.traffic n := by
  have nothing : Tally.get (c.deltas6 inputs false) n = 0 := Tally.get_zero n
  rw [applyPoll_ipv6, nothing, u64Add_zero (fits.ipv6 n)]

theorem Fits.applyPoll (fits : c.Fits) (inputs : PollInputs) (elapsed : Bool) :
    (c.applyPoll inputs elapsed).1.Fits where
  traffic ip n := by
    cases elapsed with
    | true =>
      rw [fits.applyPoll_traffic]
      exact u64Add_lt _ _
    | false =>
      rw [applyPoll_unelapsed]
      exact fits.kept_traffic inputs ip n
  verdicts ip isTx n := by
    cases elapsed with
    | true =>
      rw [fits.applyPoll_verdicts]
      exact u64Add_lt _ _
    | false =>
      rw [applyPoll_unelapsed]
      exact fits.kept_verdicts inputs ip isTx n
  ipv6 n := by
    rw [applyPoll_ipv6]
    exact u64Add_lt _ _

theorem Fits.pruneIps (fits : c.Fits) (ranges : List IpRange) : (c.pruneIps ranges).Fits := by
  have pruned : ∀ ip, ((c.pruneIps ranges).totals ip).getD {} = (c.totals ip).getD {} ∨
      ((c.pruneIps ranges).totals ip).getD {} = {} := by
    intro ip
    simp only [Collector.pruneIps, Table.retain]
    cases (c.totals ip) with
    | none => exact .inr rfl
    | some stats =>
      rw [Option.filter_some]
      split
      · exact .inl rfl
      · exact .inr rfl
  refine ⟨?_, ?_, fits.ipv6⟩
  · intro ip n
    rcases pruned ip with same | none <;> rw [‹((c.pruneIps ranges).totals ip).getD {} = _›]
    · exact fits.traffic ip n
    · exact fits_new.traffic ip n
  · intro ip isTx n
    rcases pruned ip with same | none <;> rw [‹((c.pruneIps ranges).totals ip).getD {} = _›]
    · exact fits.verdicts ip isTx n
    · exact fits_new.verdicts ip isTx n

end Poll

/-- The poll of a single counter knows only its address. -/
theorem poll_other (c : Collector) {key : TrafficKey} {ip : UInt32} (other : ip ≠ key.ipv4)
    (value : TrafficValue) (now : ℕ) :
    (c.poll ⟨[(key, value)], [], [], false⟩ now).1.totals ip = none := by
  have unmoved : addKey c.primed c.prev Table.empty (key, value) ip = none := by
    unfold addKey
    cases baseline c.primed ({} : TrafficValue) (c.prev key) with
    | none => rfl
    | some prev =>
      dsimp only
      split
      · rfl
      · exact Table.insert_of_ne other
  have dropped : (c.totals.retain fun ip _ => decide (key.ipv4 = ip)) ip = none := by
    simp [Table.retain, other.symm]
  have still : ∀ elapsed, Collector.deltas { c with lastPoll := some now }
      ⟨[(key, value)], [], [], false⟩ elapsed ip = none := by
    intro elapsed
    cases elapsed with
    | false => rfl
    | true => exact unmoved
  simp only [poll, applyPoll, List.foldl_nil, List.map_cons, List.map_nil, List.any_cons,
    List.any_nil, Bool.or_false, Bool.false_eq_true, if_false, ite_self, withDeltas, still, dropped]

/-! ### The samples -/

section Samples

variable {K V C : Type} [DecidableEq K] [Tally V C] {l : Ledger K V C} {cur : List (K × V)}
variable {prev : Table K V} {incomplete primed elapsed : Bool} {reported : K → C → ℕ}

theorem baseline_eq_some {p : Option V} {q : V} (h : baseline primed Tally.zero p = some q) :
    q = p.getD Tally.zero := by
  cases p with
  | some p => exact (Option.some.inj h).symm
  | none =>
    cases primed with
    | true => exact (Option.some.inj h).symm
    | false => cases h

theorem report_le {p : Option V} {read : Option V} (c : C) :
    report primed elapsed p read c ≤ Tally.of read c - Tally.of p c := by
  cases read with
  | none => exact Nat.zero_le _
  | some v =>
    cases elapsed with
    | false => exact Nat.zero_le _
    | true => exact Tally.gain_le p fun q => baseline_eq_some

omit [Tally V C] in
/-- The next sample of a key is its entry, or the old sample where nothing was read. -/
theorem carryForward_eq (reads : Reads cur l.entries incomplete) (k : K) :
    (cur.lookup k = l.entries k ∧ carryForward cur prev incomplete k = l.entries k) ∨
      (cur.lookup k = none ∧ carryForward cur prev incomplete k = prev k) := by
  unfold carryForward
  rcases reads.lookup_eq k with read | ⟨missed, hincomplete⟩
  · cases hentry : l.entries k with
    | some v =>
      rw [hentry] at read
      simp [read]
    | none =>
      rw [hentry] at read
      rw [read]
      cases incomplete with
      | false => simp
      | true => simp
  · simp [missed, hincomplete]

/-- A poll reports nothing that was not counted. -/
theorem backs_report (backs : l.Backs prev reported) (reads : Reads cur l.entries incomplete) :
    l.polled.Backs (carryForward cur prev incomplete) fun k c =>
      reported k c + report primed elapsed (prev k) (cur.lookup k) c := by
  apply backs.polled
  intro k c
  have bound : report primed elapsed (prev k) (cur.lookup k) c ≤
      Tally.of (cur.lookup k) c - Tally.of (prev k) c := report_le c
  rcases carryForward_eq reads k with ⟨read, next⟩ | ⟨missed, next⟩
  · rw [read] at bound
    rw [next, read]
    omega
  · rw [next]
    rw [missed] at bound ⊢
    simp only [Tally.of_none] at bound
    omega

omit [Tally V C] in
/-- A complete poll takes every entry as the next sample. -/
theorem carryForward_complete (reads : Reads cur l.entries false) (k : K) :
    carryForward cur prev false k = l.entries k := by
  rcases reads.lookup_eq k with read | ⟨-, impossible⟩
  · unfold carryForward
    rw [read]
    cases l.entries k <;> rfl
  · cases impossible

end Samples

end Collector

namespace Metering

variable {gone : UInt32 → Prop} {polls : PollInputs → Prop} {s : Metering} {inputs : PollInputs}

/-! ### Nothing is invented -/

/-- What the polls reported was counted, in every map. -/
structure Backed (s : Metering) : Prop where
  traffic : s.traffic.Backs s.collector.prev s.reported
  traffic6 : s.traffic6.Backs s.collector.prev6 s.reported6
  policer : s.policer.Backs s.collector.prevPolicer s.reportedPolicer

theorem Run.backed (run : Run gone polls s) : s.Backed := by
  induction run with
  | new => exact ⟨Ledger.backs_new, Ledger.backs_new, Ledger.backs_new⟩
  | count _ grows ih => exact ⟨ih.traffic.grow grows, ih.traffic6, ih.policer⟩
  | count6 _ grows ih => exact ⟨ih.traffic, ih.traffic6.grow grows, ih.policer⟩
  | verdict _ grows ih => exact ⟨ih.traffic, ih.traffic6, ih.policer.grow grows⟩
  | delete _ _ ih => exact ⟨ih.traffic.delete _, ih.traffic6, ih.policer⟩
  | delete6 _ _ ih => exact ⟨ih.traffic, ih.traffic6.delete _, ih.policer⟩
  | deleteVerdicts k _ ih => exact ⟨ih.traffic, ih.traffic6, ih.policer.delete k⟩
  | poll elapsed _ sees _ ih =>
    exact ⟨Collector.backs_report ih.traffic sees.traffic,
      Collector.backs_report ih.traffic6 sees.traffic6,
      Collector.backs_report ih.policer sees.policer⟩
  | prune ranges _ ih => exact ⟨ih.traffic, ih.traffic6, ih.policer⟩

/-- A poll adds up: what it adds to the totals of an address, to the IPv6 aggregate and to
the verdicts is what it reports for the keys it read. -/
structure AddsUp (s : Metering) (inputs : PollInputs) (elapsed : Bool) : Prop where
  totals : ∀ ip n, (((s.poll inputs elapsed).collector.totals ip).getD {}).traffic n =
    u64Add ((s.collector.kept inputs ip).traffic n)
      ((inputs.cur.filter (·.1.ipv4 = ip)).map fun e =>
        (s.poll inputs elapsed).reported e.1 n - s.reported e.1 n).sum
  ipv6 : ∀ n, (s.poll inputs elapsed).collector.ipv6.traffic n = u64Add (s.collector.ipv6.traffic n)
    (inputs.cur6.map fun e => (s.poll inputs elapsed).reported6 e.1 n - s.reported6 e.1 n).sum
  verdicts : ∀ ip isTx n, (((s.poll inputs elapsed).collector.totals ip).getD {}).verdicts isTx n =
    u64Add ((s.collector.kept inputs ip).verdicts isTx n) ((inputs.curPolicer.filter fun e =>
        decide (e.1.ipv4 = ip) && decide (decide (e.1.direction = dirTx) = isTx)).map fun e =>
      (s.poll inputs elapsed).reportedPolicer e.1 n - s.reportedPolicer e.1 n).sum

/-- In every run the totals are `u64`s. -/
theorem Run.fits (run : Run gone polls s) : s.collector.Fits := by
  induction run with
  | new => exact Collector.fits_new
  | count _ _ ih => exact ih
  | count6 _ _ ih => exact ih
  | verdict _ _ ih => exact ih
  | delete _ _ ih => exact ih
  | delete6 _ _ ih => exact ih
  | deleteVerdicts _ _ ih => exact ih
  | poll elapsed _ _ _ ih => exact ih.applyPoll _ elapsed
  | prune ranges _ ih => exact ih.pruneIps ranges

theorem Sees.addsUp (sees : s.Sees inputs) (fits : s.collector.Fits) (elapsed : Bool) :
    s.AddsUp inputs elapsed := by
  have reported : ∀ e ∈ inputs.cur, ∀ n,
      (s.poll inputs elapsed).reported e.1 n - s.reported e.1 n =
        Collector.report s.collector.primed elapsed (s.collector.prev e.1) (some e.2) n := by
    intro e he n
    rw [← sees.traffic.lookup_of_mem he]
    exact Nat.add_sub_cancel_left ..
  have reported6 : ∀ e ∈ inputs.cur6, ∀ n,
      (s.poll inputs elapsed).reported6 e.1 n - s.reported6 e.1 n =
        Collector.report s.collector.primed elapsed (s.collector.prev6 e.1) (some e.2) n := by
    intro e he n
    rw [← sees.traffic6.lookup_of_mem he]
    exact Nat.add_sub_cancel_left ..
  have reportedPolicer : ∀ e ∈ inputs.curPolicer, ∀ n,
      (s.poll inputs elapsed).reportedPolicer e.1 n - s.reportedPolicer e.1 n =
        Collector.report s.collector.primed elapsed (s.collector.prevPolicer e.1) (some e.2) n := by
    intro e he n
    rw [← sees.policer.lookup_of_mem he]
    exact Nat.add_sub_cancel_left ..
  cases elapsed with
  | true =>
    refine ⟨?_, ?_, ?_⟩
    · intro ip n
      refine (fits.applyPoll_traffic ip n).trans ?_
      rw [Collector.of_deltas, u64Add_mod]
      congr 2
      exact List.map_congr_left fun e he => (reported e (List.mem_of_mem_filter he) n).symm
    · intro n
      refine (Collector.applyPoll_ipv6 true n).trans ?_
      rw [Collector.get_deltas6, u64Add_mod]
      congr 2
      exact List.map_congr_left fun e he => (reported6 e he n).symm
    · intro ip isTx n
      refine (fits.applyPoll_verdicts ip isTx n).trans ?_
      congr 2
      exact List.map_congr_left fun e he => (reportedPolicer e (List.mem_of_mem_filter he) n).symm
  | false =>
    have none_reported : ∀ {E : Type} {es : List E} {f : E → ℕ}, (∀ e ∈ es, f e = 0) →
        (es.map f).sum = 0 := by
      intro E es f zero
      rw [List.map_congr_left zero]
      simp
    refine ⟨?_, ?_, ?_⟩
    · intro ip n
      rw [none_reported fun e he => reported e (List.mem_of_mem_filter he) n,
        u64Add_zero (fits.kept_traffic inputs ip n)]
      exact congrArg (IpStats.traffic · n) (Collector.applyPoll_unelapsed ip)
    · intro n
      rw [none_reported fun e he => reported6 e he n, u64Add_zero (fits.ipv6 n)]
      exact fits.applyPoll_ipv6_unelapsed n
    · intro ip isTx n
      rw [none_reported fun e he => reportedPolicer e (List.mem_of_mem_filter he) n,
        u64Add_zero (fits.kept_verdicts inputs ip isTx n)]
      exact congrArg (IpStats.verdicts · isTx n) (Collector.applyPoll_unelapsed ip)

/-- Over any run of polls, complete or not, growth, deletions and pruning, what was
reported for a key never exceeds what the data path counted into it, and the totals are
made of what was reported. -/
theorem reported_le_counted (run : Run gone polls s) :
    (∀ k n, s.reported k n ≤ s.traffic.counted k n) ∧
      (∀ k n, s.reported6 k n ≤ s.traffic6.counted k n) ∧
      (∀ k n, s.reportedPolicer k n ≤ s.policer.counted k n) ∧
      ∀ inputs elapsed, s.Sees inputs → s.AddsUp inputs elapsed := by
  have backed := run.backed
  exact ⟨backed.traffic.le, backed.traffic6.le, backed.policer.le,
    fun _ elapsed sees => sees.addsUp run.fits elapsed⟩

/-! ### Nothing is lost, but for a key that comes back -/

/-- Every traffic entry is its sample and what was counted since the latest poll. -/
structure Followed (s : Metering) : Prop where
  traffic : s.traffic.Follows s.collector.prev
  traffic6 : s.traffic6.Follows s.collector.prev6

theorem Run.followed (run : Run gone (·.incomplete = false) s) : s.Followed := by
  induction run with
  | new => exact ⟨Ledger.follows_new, Ledger.follows_new⟩
  | count _ grows ih => exact ⟨ih.traffic.grow grows, ih.traffic6⟩
  | count6 _ grows ih => exact ⟨ih.traffic, ih.traffic6.grow grows⟩
  | verdict _ _ ih => exact ⟨ih.traffic, ih.traffic6⟩
  | delete _ _ ih => exact ⟨ih.traffic.delete _, ih.traffic6⟩
  | delete6 _ _ ih => exact ⟨ih.traffic, ih.traffic6.delete _⟩
  | deleteVerdicts _ _ ih => exact ⟨ih.traffic, ih.traffic6⟩
  | @poll s inputs elapsed _ sees complete ih =>
    have traffic : Reads inputs.cur s.traffic.entries false := complete ▸ sees.traffic
    have traffic6 : Reads inputs.cur6 s.traffic6.entries false := complete ▸ sees.traffic6
    constructor
    · apply Ledger.follows_polled
      intro k
      change Collector.carryForward inputs.cur s.collector.prev inputs.incomplete k = _
      rw [complete]
      exact Collector.carryForward_complete traffic k
    · apply Ledger.follows_polled
      intro k
      change Collector.carryForward inputs.cur6 s.collector.prev6 inputs.incomplete k = _
      rw [complete]
      exact Collector.carryForward_complete traffic6 k
  | prune _ _ ih => exact ⟨ih.traffic, ih.traffic6⟩

/-- What a poll adds to the totals of an address and to the IPv6 aggregate is exactly what
the data path counted since the poll before, in the entries that are there. -/
structure Exact (s : Metering) (inputs : PollInputs) : Prop where
  deltas : ∀ ip n, Tally.of (s.collector.deltas inputs true ip) n =
    ((inputs.cur.filter (·.1.ipv4 = ip)).map fun e => s.traffic.since e.1 n).sum
  totals : ∀ ip n, (((s.collector.applyPoll inputs true).1.totals ip).getD {}).traffic n =
    u64Add ((s.collector.kept inputs ip).traffic n)
      ((inputs.cur.filter (·.1.ipv4 = ip)).map fun e => s.traffic.since e.1 n).sum
  deltas6 : ∀ n, Tally.get (s.collector.deltas6 inputs true) n =
    (inputs.cur6.map fun e => s.traffic6.since e.1 n).sum
  ipv6 : ∀ n, (s.collector.applyPoll inputs true).1.ipv6.traffic n =
    u64Add (s.collector.ipv6.traffic n) (inputs.cur6.map fun e => s.traffic6.since e.1 n).sum

/-- What was counted since the poll before fits a `u64`, for each address and over all
of IPv6. -/
structure SumsFit (s : Metering) (inputs : PollInputs) : Prop where
  traffic : ∀ ip n,
    ((inputs.cur.filter (·.1.ipv4 = ip)).map fun e => s.traffic.since e.1 n).sum < 2 ^ 64
  ipv6 : ∀ n, (inputs.cur6.map fun e => s.traffic6.since e.1 n).sum < 2 ^ 64

/-- Of an entry that was deleted and created again since the latest poll, no counter had
counted before and counts again. -/
def NoneResumed {K : Type} (l : Ledger K TrafficValue TrafficCounter) (prev : Table K TrafficValue)
    (cur : List (K × TrafficValue)) : Prop :=
  ∀ e ∈ cur, l.deleted e.1 → ∀ n, Tally.of (prev e.1) n = 0 ∨ Tally.get e.2 n = 0

section Exactness

variable {K : Type} [DecidableEq K] {l : Ledger K TrafficValue TrafficCounter}
variable {prev : Table K TrafficValue} {cur : List (K × TrafficValue)} {incomplete : Bool}

theorem gain_primed {p : Option TrafficValue} (v : TrafficValue) (n : TrafficCounter) :
    Tally.gain (Collector.baseline true {} p) v n = Tally.get v n - Tally.of p n := by
  cases p <;> rfl

omit [DecidableEq K] in
theorem gain_le_since (within : l.Within prev) (reads : Reads cur l.entries incomplete)
    (n : TrafficCounter) : ∀ e ∈ cur,
      Tally.gain (Collector.baseline true {} (prev e.1)) e.2 n ≤ l.since e.1 n := by
  intro e he
  have := within.le_since e.1 n
  rw [reads.entry e he, Tally.of_some] at this
  rwa [gain_primed]

omit [DecidableEq K] in
theorem noneResumed_iff (follows : l.Follows prev) (reads : Reads cur l.entries incomplete) :
    NoneResumed l prev cur ↔ ∀ e ∈ cur, ∀ n,
      Tally.gain (Collector.baseline true {} (prev e.1)) e.2 n = l.since e.1 n := by
  have each : ∀ e ∈ cur, ∀ n,
      (Tally.gain (Collector.baseline true {} (prev e.1)) e.2 n = l.since e.1 n ↔
        (l.deleted e.1 → Tally.of (prev e.1) n = 0 ∨ Tally.get e.2 n = 0)) := by
    intro e he n
    have := follows.eq_since_iff e.1 n
    rw [reads.entry e he, Tally.of_some] at this
    rwa [gain_primed]
  constructor
  · intro none e he n
    exact (each e he n).mpr fun deleted => none e he deleted n
  · intro all e he deleted n
    exact (each e he n).mp (all e he n) deleted

end Exactness

/-- The delta of an address is what was counted if each of its keys gained that and the sum
does not wrap. -/
theorem delta_eq_iff (followed : s.Followed) (primed : s.collector.primed = true)
    (sees : s.Sees inputs) (ip : UInt32) (n : TrafficCounter) :
    Tally.of (s.collector.deltas inputs true ip) n =
        ((inputs.cur.filter (·.1.ipv4 = ip)).map fun e => s.traffic.since e.1 n).sum ↔
      (∀ e ∈ inputs.cur.filter (·.1.ipv4 = ip),
        Tally.gain (Collector.baseline true {} (s.collector.prev e.1)) e.2 n =
          s.traffic.since e.1 n) ∧
      ((inputs.cur.filter (·.1.ipv4 = ip)).map fun e => s.traffic.since e.1 n).sum < 2 ^ 64 := by
  rw [Collector.of_deltas, primed]
  exact Tally.sum_mod_eq_iff fun e he =>
    gain_le_since followed.traffic.within sees.traffic n e (List.mem_of_mem_filter he)

theorem delta6_eq_iff (followed : s.Followed) (primed : s.collector.primed = true)
    (sees : s.Sees inputs) (n : TrafficCounter) :
    Tally.get (s.collector.deltas6 inputs true) n =
        (inputs.cur6.map fun e => s.traffic6.since e.1 n).sum ↔
      (∀ e ∈ inputs.cur6,
        Tally.gain (Collector.baseline true {} (s.collector.prev6 e.1)) e.2 n =
          s.traffic6.since e.1 n) ∧
      (inputs.cur6.map fun e => s.traffic6.since e.1 n).sum < 2 ^ 64 := by
  rw [Collector.get_deltas6, primed]
  exact Tally.sum_mod_eq_iff (gain_le_since followed.traffic6.within sees.traffic6 n)

/-- A complete poll after the first one is exact if and only if no entry that was deleted
since the poll before has a counter that counts again, and no sum wraps. -/
theorem poll_exact_iff (run : Run gone (·.incomplete = false) s) (primed : s.collector.primed = true)
    (sees : s.Sees inputs) :
    s.Exact inputs ↔ NoneResumed s.traffic s.collector.prev inputs.cur ∧
      NoneResumed s.traffic6 s.collector.prev6 inputs.cur6 ∧ s.SumsFit inputs := by
  have followed := run.followed
  have deltas := delta_eq_iff followed primed sees
  have deltas6 := delta6_eq_iff followed primed sees
  rw [noneResumed_iff followed.traffic sees.traffic, noneResumed_iff followed.traffic6 sees.traffic6]
  constructor
  · intro h
    refine ⟨?_, ?_, ?_, ?_⟩
    · intro e he n
      have all := ((deltas e.1.ipv4 n).mp (h.deltas e.1.ipv4 n)).1
      exact all e (List.mem_filter.mpr ⟨he, decide_eq_true rfl⟩)
    · intro e he n
      exact ((deltas6 n).mp (h.deltas6 n)).1 e he
    · intro ip n
      exact ((deltas ip n).mp (h.deltas ip n)).2
    · intro n
      exact ((deltas6 n).mp (h.deltas6 n)).2
  · intro h
    obtain ⟨each, each6, fit⟩ := h
    have exact4 := fun ip n => (deltas ip n).mpr
      ⟨fun e he => each e (List.mem_of_mem_filter he) n, fit.traffic ip n⟩
    have exact6 := fun n => (deltas6 n).mpr ⟨fun e he => each6 e he n, fit.ipv6 n⟩
    refine ⟨exact4, ?_, exact6, ?_⟩
    · intro ip n
      rw [run.fits.applyPoll_traffic, exact4]
    · intro n
      rw [Collector.applyPoll_ipv6, exact6]

/-! ### A key that comes back -/

/-- One address on one TAP, with 1000 bytes received and then nothing. -/
def quietKey : TrafficKey := ⟨5, 1⟩

def quietValue : TrafficValue := { rxBytes := 1000, rxPackets := 1 }

/-- What every poll reads of it. -/
def quietInputs : PollInputs := ⟨[(quietKey, quietValue)], [], [], false⟩

/-- The entry has not changed for `n` polls. -/
structure Quiet (polls : PollInputs → Prop) (n : ℕ) (s : Metering) : Prop where
  run : Run (fun _ => False) polls s
  primed : s.collector.primed = true
  prev : s.collector.prev quietKey = some quietValue
  idle : s.collector.idle4.counts quietKey = some n
  unreported : s.reported quietKey .rxBytes = 0
  traffic : s.traffic.entries = Table.empty.insert quietKey quietValue
  traffic6 : s.traffic6.entries = Table.empty
  policer : s.policer.entries = Table.empty

theorem reads_one {K V : Type} [DecidableEq K] (k : K) (v : V) (incomplete : Bool) :
    Reads [(k, v)] (Table.empty.insert k v) incomplete where
  nodup := List.nodup_singleton k
  entry := by simp
  all _ k' v' h := by
    by_cases hk : k' = k
    · subst hk
      rw [Table.insert_self, Option.some.injEq] at h
      simp [h]
    · rw [Table.insert_of_ne hk] at h
      cases h

theorem reads_none {K V : Type} (incomplete : Bool) :
    Reads ([] : List (K × V)) Table.empty incomplete :=
  ⟨List.nodup_nil, by simp, fun _ _ _ h => by cases h⟩

theorem sees_one {k : TrafficKey} {v : TrafficValue}
    (traffic : s.traffic.entries = Table.empty.insert k v)
    (traffic6 : s.traffic6.entries = Table.empty) (policer : s.policer.entries = Table.empty) :
    s.Sees ⟨[(k, v)], [], [], false⟩ where
  traffic := traffic ▸ reads_one k v false
  traffic6 := traffic6 ▸ reads_none false
  policer := policer ▸ reads_none false

/-- A read that failed before the first entry. -/
def missedInputs : PollInputs := ⟨[], [], [], true⟩

theorem sees_missed (s : Metering) : s.Sees missedInputs where
  traffic := ⟨List.nodup_nil, by simp [missedInputs], nofun⟩
  traffic6 := ⟨List.nodup_nil, by simp [missedInputs], nofun⟩
  policer := ⟨List.nodup_nil, by simp [missedInputs], nofun⟩

theorem Quiet.poll {n : ℕ} (h : Quiet polls n s) (takes : polls quietInputs) :
    Quiet polls (n + 1) (s.poll quietInputs true) where
  run := h.run.poll true (sees_one h.traffic h.traffic6 h.policer) takes
  primed := rfl
  prev := rfl
  idle := by
    change (some (if Collector.changed quietInputs.cur s.collector.prev quietKey then 0
      else (s.collector.idle4.counts quietKey).getD 0 + 1) : Option ℕ) = _
    have unchanged : Collector.changed quietInputs.cur s.collector.prev quietKey = false := by
      simp [Collector.changed, quietInputs, h.prev]
    rw [unchanged, h.idle]
    rfl
  unreported := by
    simp [Metering.poll, quietInputs, Collector.report, Collector.baseline, h.prev, h.unreported,
      Tally.gain]
  traffic := h.traffic
  traffic6 := h.traffic6
  policer := h.policer

theorem Quiet.stale {n : ℕ} (h : Quiet polls n s) (long : idleEvictPolls ≤ n + 1) :
    quietKey ∈ (s.poll quietInputs true).stale := by
  refine List.mem_filter.mpr ⟨List.mem_singleton_self quietKey, ?_⟩
  have unchanged : Collector.changed quietInputs.cur s.collector.prev quietKey = false := by
    simp [Collector.changed, quietInputs, h.prev]
  have idle := h.idle
  simpa [unchanged, idle] using long

theorem quiet_zero (polls : PollInputs → Prop) (takes : polls quietInputs) :
    ∃ s, Quiet polls 0 s := by
  have counted : Run (fun _ => False) polls { traffic := Ledger.grow quietKey quietValue {} } :=
    .count .new (by intro c; simp)
  have sees : Sees { traffic := Ledger.grow quietKey quietValue {} } quietInputs :=
    sees_one rfl rfl rfl
  exact ⟨_, counted.poll false sees takes, rfl, rfl, rfl, rfl, rfl, rfl, rfl⟩

theorem exists_quiet (polls : PollInputs → Prop) (takes : polls quietInputs) (n : ℕ) :
    ∃ s, Quiet polls n s := by
  induction n with
  | zero => exact quiet_zero polls takes
  | succ n ih =>
    obtain ⟨s, quiet⟩ := ih
    exact ⟨_, quiet.poll takes⟩

/-- What is counted under the key after the old entry is gone. -/
def returnedValue : TrafficValue := { rxBytes := 500, rxPackets := 1 }

def returnedInputs : PollInputs := ⟨[(quietKey, returnedValue)], [], [], false⟩

/-- The entry is deleted, and 500 bytes are received on a new one. -/
def comesBack (s : Metering) : Metering :=
  { s with traffic := (s.traffic.delete quietKey).grow quietKey returnedValue }

theorem Quiet.comesBack {n : ℕ} (h : Quiet polls n s) (takes : polls quietInputs)
    (long : idleEvictPolls ≤ n + 1) :
    Run (fun _ => False) polls (s.poll quietInputs true).comesBack := by
  have evicted := (h.poll takes).run.delete (Or.inl (h.stale long))
  apply evicted.count
  intro c
  simp [Ledger.delete]

theorem Quiet.sees_returned {n : ℕ} (h : Quiet polls n s) : s.comesBack.Sees returnedInputs := by
  refine sees_one ?_ h.traffic6 h.policer
  change (s.traffic.entries.remove quietKey).insert quietKey _ = _
  rw [h.traffic]
  funext k
  by_cases hk : k = quietKey <;> simp [Table.insert, Table.remove, hk]

/-- An entry that was idle for 300 polls is evicted and receives 500 bytes before the next
poll, which compares them with the 1000 bytes of the old entry and adds nothing. -/
theorem returning_key_is_lost : ∃ s : Metering, ∃ inputs : PollInputs,
    Run (fun _ => False) (·.incomplete = false) s ∧ s.collector.primed = true ∧ s.Sees inputs ∧
      inputs.incomplete = false ∧ s.traffic.since quietKey .rxBytes = 500 ∧
      (((s.collector.applyPoll inputs true).1.totals 1).getD {}).traffic .rxBytes =
        (s.collector.kept inputs 1).traffic .rxBytes ∧ ¬ s.Exact inputs := by
  have takes : quietInputs.incomplete = false := rfl
  obtain ⟨s, quiet⟩ := exists_quiet (·.incomplete = false) takes 299
  have since : (s.poll quietInputs true).comesBack.traffic.since quietKey .rxBytes = 500 := by
    simp [comesBack, Ledger.grow, Ledger.delete, Tally.get, returnedValue]
  have run := quiet.comesBack takes (by decide)
  have fits := run.fits
  have nothing : Tally.of ((s.poll quietInputs true).comesBack.collector.deltas returnedInputs
      true 1) .rxBytes = 0 := Collector.of_deltas _ returnedInputs 1 .rxBytes
  have unreported :
      (((((s.poll quietInputs true).comesBack.collector.applyPoll returnedInputs true).1.totals
        1).getD {}).traffic .rxBytes) =
      ((s.poll quietInputs true).comesBack.collector.kept returnedInputs 1).traffic .rxBytes := by
    rw [fits.applyPoll_traffic, nothing, u64Add_zero (fits.kept_traffic returnedInputs 1 .rxBytes)]
  refine ⟨_, returnedInputs, run, rfl, (quiet.poll takes).sees_returned, rfl, since, unreported,
    fun exact => ?_⟩
  have counted := exact.deltas 1 .rxBytes
  have one : returnedInputs.cur.filter (·.1.ipv4 = 1) = [(quietKey, returnedValue)] := rfl
  rw [nothing, one, List.map_singleton, List.sum_singleton, since] at counted
  omega

def grownValue : TrafficValue := { rxBytes := 1500, rxPackets := 2 }

/-- The entry grows by 500 bytes. -/
def goesOn (s : Metering) : Metering :=
  { s with traffic := s.traffic.grow quietKey grownValue }

theorem poll_exact_iff_growing : ∃ s : Metering, ∃ inputs : PollInputs,
    s.Sees inputs ∧ s.traffic.since quietKey .rxBytes = 500 ∧ s.Exact inputs := by
  have takes : quietInputs.incomplete = false := rfl
  obtain ⟨s, quiet⟩ := exists_quiet (·.incomplete = false) takes 0
  have quiet := quiet.poll takes
  have run : Run (fun _ => False) (·.incomplete = false) (s.poll quietInputs true).goesOn := by
    apply quiet.run.count
    intro c
    rw [quiet.traffic, Table.insert_self, Tally.of_some]
    cases c <;> decide
  have sees : (s.poll quietInputs true).goesOn.Sees
      ⟨[(quietKey, grownValue)], [], [], false⟩ := by
    refine sees_one ?_ quiet.traffic6 quiet.policer
    change (s.poll quietInputs true).traffic.entries.insert quietKey _ = _
    rw [quiet.traffic]
    funext k
    by_cases hk : k = quietKey <;> simp [Table.insert, hk]
  have since : ∀ n, (s.poll quietInputs true).goesOn.traffic.since quietKey n =
      Tally.get grownValue n - Tally.get quietValue n := by
    intro n
    have entries : s.traffic.entries = Table.empty.insert quietKey quietValue := quiet.traffic
    simp [goesOn, Ledger.grow, Metering.poll, Ledger.polled, entries]
  have fit : (s.poll quietInputs true).goesOn.SumsFit ⟨[(quietKey, grownValue)], [], [], false⟩ := by
    constructor
    · intro ip n
      by_cases own : quietKey.ipv4 = ip
      · have filtered : [(quietKey, grownValue)].filter (·.1.ipv4 = ip) =
            [(quietKey, grownValue)] := by simp [own]
        rw [filtered, List.map_singleton, List.sum_singleton, since]
        cases n <;> decide
      · simp [own]
    · intro n
      exact Nat.two_pow_pos 64
  refine ⟨_, _, sees, since .rxBytes, (poll_exact_iff run rfl sees).mpr ⟨?_, ?_, fit⟩⟩
  · intro e _ deleted
    cases deleted
  · intro e he
    cases he

/-- What the evicted entry has grown to when it is read again. -/
def recoveredValue : TrafficValue := { rxBytes := 1600, rxPackets := 3 }

/-- The entry that came back is missed by one poll, grows and is read by the next one. -/
def recovers (s : Metering) : Metering :=
  let missed := s.poll missedInputs true
  { missed with traffic := missed.traffic.grow quietKey recoveredValue }.poll
    ⟨[(quietKey, recoveredValue)], [], [], false⟩ true

theorem Quiet.recovers {n : ℕ} (h : Quiet (fun _ => True) n s) (long : idleEvictPolls ≤ n + 1) :
    Run (fun _ => False) (fun _ => True) (s.poll quietInputs true).comesBack.recovers := by
  have back := h.comesBack trivial long
  have entry : (s.poll quietInputs true).comesBack.traffic.entries =
      Table.empty.insert quietKey returnedValue := by
    change (s.traffic.entries.remove quietKey).insert quietKey _ = _
    rw [h.traffic]
    funext k
    by_cases hk : k = quietKey <;> simp [Table.insert, Table.remove, hk]
  refine (((back.poll true (sees_missed _) trivial).count ?_).poll true ?_ trivial)
  · intro c
    change Tally.of ((s.poll quietInputs true).comesBack.traffic.entries quietKey) c ≤ _
    rw [entry, Table.insert_self, Tally.of_some]
    cases c <;> decide
  · refine sees_one ?_ h.traffic6 h.policer
    change (s.poll quietInputs true).comesBack.traffic.entries.insert quietKey _ = _
    rw [entry]
    funext k
    by_cases hk : k = quietKey <;> simp [Table.insert, hk]

/-- After an eviction and a failed read, 600 of the 1600 bytes of the new entry are
reported. -/
theorem reported_le_counted_quiet : ∃ s : Metering, s.reported quietKey .rxBytes = 600 ∧
    ∀ k n, s.reported k n ≤ s.traffic.counted k n := by
  obtain ⟨s, quiet⟩ := exists_quiet (fun _ => True) trivial 299
  have before := (quiet.poll trivial).unreported
  refine ⟨_, ?_, (reported_le_counted (quiet.recovers (by decide))).1⟩
  change (s.poll quietInputs true).reported quietKey .rxBytes + 0 + 600 = 600
  rw [before]

end Metering

end VmWatcher

import Mathlib.Combinatorics.Enumerative.DoubleCounting
import VmWatcher.Core.Proofs.Prefixes

/-!
# The prefixes of a range are as few as can be

The greedy loop of `cidrs` never stops inside an aligned block of the range, so every
prefix set with the same union has a prefix of its own for each of them. Sizes rise while
alignment limits them and fall once the end of the range does, which bounds their number.
-/

namespace VmWatcher

namespace IpRange

/-! ### The block of one round -/

/-- The bits of the block that a round of `cidrs` takes at `cur`. -/
def roundBits (cur stop : ℕ) : ℕ :=
  blockBits cur stop (if cur = 0 then 32 else trailingZeros 64 cur) 32 0

theorem cidrsFrom_round {cur stop : ℕ} (h : cur ≤ stop) (fuel : ℕ) :
    cidrsFrom stop (fuel + 1) cur =
      ⟨UInt8.ofNat (32 - roundBits cur stop), UInt32.ofNat cur⟩ ::
        cidrsFrom stop fuel (cur + 2 ^ roundBits cur stop) := if_pos h

theorem cidrsFrom_past {cur stop : ℕ} (h : ¬ cur ≤ stop) (fuel : ℕ) :
    cidrsFrom stop fuel cur = [] := by
  cases fuel with
  | zero => rfl
  | succ fuel => exact if_neg h

theorem le_trailingZeros {fuel n b : ℕ} (dvd : 2 ^ b ∣ n) (positive : 0 < n)
    (small : n < 2 ^ fuel) : b ≤ trailingZeros fuel n := by
  induction fuel generalizing n b with
  | zero =>
    rw [pow_zero] at small
    omega
  | succ fuel ih =>
    cases b with
    | zero => exact Nat.zero_le _
    | succ b =>
      obtain ⟨q, rfl⟩ := dvd
      have half : 2 ^ (b + 1) * q = 2 * (2 ^ b * q) := by ring
      rw [half] at positive small ⊢
      rw [trailingZeros, if_pos (Nat.mul_mod_right 2 _), Nat.mul_div_cancel_left _ (by decide)]
      rw [pow_succ] at small
      exact Nat.succ_le_succ (ih (Nat.dvd_mul_right _ _) (by omega) (by omega))

/-- The inner loop stops at the largest block only. -/
theorem le_blockBits {cur stop alignBits b : ℕ} (aligned : b ≤ alignBits) (word : b ≤ 32)
    (inside : cur + 2 ^ b ≤ stop + 1) :
    ∀ fuel bits, 32 ≤ bits + fuel → b ≤ blockBits cur stop alignBits fuel bits := by
  intro fuel
  induction fuel with
  | zero =>
    intro bits enough
    exact word.trans enough
  | succ fuel ih =>
    intro bits enough
    unfold blockBits
    split
    next => exact ih (bits + 1) (by omega)
    next stops =>
      by_contra larger
      have power : 2 ^ (bits + 1) ≤ 2 ^ b := Nat.pow_le_pow_right (by decide) (by omega)
      exact stops ⟨by omega, by omega, by omega⟩

/-- More rounds than bits change nothing: the inner loop has ended. -/
theorem blockBits_fuel {cur stop alignBits : ℕ} :
    ∀ fuel fuel' bits, 32 ≤ bits + fuel → 32 ≤ bits + fuel' →
      blockBits cur stop alignBits fuel bits = blockBits cur stop alignBits fuel' bits := by
  intro fuel
  induction fuel with
  | zero =>
    intro fuel' bits enough _
    cases fuel' with
    | zero => rfl
    | succ fuel' => rw [blockBits, blockBits, if_neg fun grows => by omega]
  | succ fuel ih =>
    intro fuel' bits enough enough'
    cases fuel' with
    | zero => rw [blockBits, blockBits, if_neg fun grows => by omega]
    | succ fuel' => rw [blockBits, blockBits, ih fuel' (bits + 1) (by omega) (by omega)]

section Round

variable {cur stop : ℕ} (h : cur ≤ stop)
include h

theorem roundBits_dvd : 2 ^ roundBits cur stop ∣ cur := (round_block h).2

theorem roundBits_inside : cur + 2 ^ roundBits cur stop ≤ stop + 1 := (round_block h).1.inside

theorem roundBits_le : roundBits cur stop ≤ 32 := (round_block h).1.word

/-- Every aligned block at `cur` that stays in the range is no larger. -/
theorem le_roundBits (hstop : stop < 2 ^ 32) {b : ℕ} (aligned : 2 ^ b ∣ cur)
    (inside : cur + 2 ^ b ≤ stop + 1) : b ≤ roundBits cur stop := by
  have word : b ≤ 32 := by
    rw [← Nat.pow_le_pow_iff_right (a := 2) (by decide)]
    omega
  refine le_blockBits ?_ word inside 32 0 (by decide)
  by_cases zero : cur = 0
  · rw [if_pos zero]
    exact word
  · rw [if_neg zero]
    exact le_trailingZeros aligned (Nat.pos_iff_ne_zero.mpr zero) (by omega)

end Round

theorem toNat_address {n : ℕ} (h : n < 2 ^ 32) : (UInt32.ofNat n).toNat = n :=
  UInt32.toNat_ofNat_of_lt h

/-- More rounds than there are addresses left change nothing: the outer loop has ended. -/
theorem cidrsFrom_fuel {stop : ℕ} :
    ∀ fuel fuel' cur, stop + 1 ≤ cur + fuel → stop + 1 ≤ cur + fuel' →
      cidrsFrom stop fuel cur = cidrsFrom stop fuel' cur := by
  intro fuel
  induction fuel with
  | zero =>
    intro fuel' cur enough _
    rw [cidrsFrom_past (by omega), cidrsFrom_past (by omega)]
  | succ fuel ih =>
    intro fuel' cur enough enough'
    by_cases h : cur ≤ stop
    · obtain ⟨fuel', rfl⟩ : ∃ n, fuel' = n + 1 := ⟨fuel' - 1, by omega⟩
      have positive : 0 < 2 ^ roundBits cur stop := Nat.two_pow_pos _
      rw [cidrsFrom_round h, cidrsFrom_round h, ih fuel' _ (by omega) (by omega)]
    · rw [cidrsFrom_past h, cidrsFrom_past h]

/-! ### The spans -/

/-- The spans follow each other without gap or overlap, from `first` through `last`. -/
def Tile (last : ℕ) : ℕ → List (UInt32 × UInt32) → Prop
  | first, [] => first = last + 1
  | first, s :: rest => s.1.toNat = first ∧ s.1 ≤ s.2 ∧ Tile last (s.2.toNat + 1) rest

theorem span_block {cur bits : ℕ} (hbits : bits ≤ 32) (inside : cur + 2 ^ bits ≤ 2 ^ 32) :
    Cidr.span ⟨UInt8.ofNat (32 - bits), UInt32.ofNat cur⟩ =
      (UInt32.ofNat cur, UInt32.ofNat (cur + 2 ^ bits - 1)) := by
  have positive : 0 < 2 ^ bits := Nat.two_pow_pos _
  have address : cur < 2 ^ 32 := by omega
  obtain ⟨hlen, hnet⟩ := toNat_prefix hbits address
  unfold Cidr.span
  rw [hlen, hnet, Nat.sub_sub_self hbits]

theorem cidrsFrom_tile {stop : ℕ} (hstop : stop < 2 ^ 32) :
    ∀ fuel cur, cur ≤ stop + 1 → stop + 1 ≤ cur + fuel →
      Tile stop cur ((cidrsFrom stop fuel cur).map Cidr.span) := by
  intro fuel
  induction fuel with
  | zero =>
    intro cur low enough
    exact Nat.le_antisymm low enough
  | succ fuel ih =>
    intro cur low enough
    by_cases h : cur ≤ stop
    · have inside := roundBits_inside h
      have positive : 0 < 2 ^ roundBits cur stop := Nat.two_pow_pos _
      have first : (UInt32.ofNat cur).toNat = cur := toNat_address (h.trans_lt hstop)
      have last : (UInt32.ofNat (cur + 2 ^ roundBits cur stop - 1)).toNat =
          cur + 2 ^ roundBits cur stop - 1 := toNat_address (by omega)
      rw [cidrsFrom_round h, List.map_cons, span_block (roundBits_le h) (by omega)]
      refine ⟨first, ?_, ?_⟩
      · rw [UInt32.le_iff_toNat_le, first, last]
        omega
      · rw [last, Nat.sub_add_cancel (by omega)]
        exact ih _ inside (by omega)
    · rw [cidrsFrom_past h]
      exact Nat.le_antisymm low (by omega)

/-! ### No smaller set -/

/-- The address lies strictly inside no aligned block of the range. -/
def Boundary (start stop cur : ℕ) : Prop :=
  ∀ q b, 2 ^ b ∣ q → start ≤ q → q + 2 ^ b ≤ stop + 1 → q < cur → q + 2 ^ b ≤ cur

/-- The greedy block ends where no aligned block of the range goes on. -/
theorem Boundary.next {start stop cur : ℕ} (hstop : stop < 2 ^ 32) (h : cur ≤ stop)
    (at_cur : Boundary start stop cur) : Boundary start stop (cur + 2 ^ roundBits cur stop) := by
  intro q b aligned low inside before
  rcases Nat.lt_trichotomy q cur with early | rfl | late
  · exact (at_cur q b aligned low inside early).trans (Nat.le_add_right _ _)
  · have smaller := le_roundBits h hstop aligned inside
    exact Nat.add_le_add_left (Nat.pow_le_pow_right (by decide) smaller) _
  · exact block_end_le (roundBits_dvd h) aligned late before

theorem cidrsFrom_boundary {start stop : ℕ} (hstop : stop < 2 ^ 32) :
    ∀ fuel cur, Boundary start stop cur →
      ∀ c ∈ cidrsFrom stop fuel cur, Boundary start stop c.network.toNat := by
  intro fuel
  induction fuel with
  | zero => exact fun _ _ _ hc => nomatch hc
  | succ fuel ih =>
    intro cur at_cur c hc
    by_cases h : cur ≤ stop
    · rw [cidrsFrom_round h] at hc
      rcases List.mem_cons.mp hc with rfl | hc
      · rwa [toNat_address (h.trans_lt hstop)]
      · exact ih _ (at_cur.next hstop h) c hc
    · rw [cidrsFrom_past h] at hc
      cases hc

theorem cidrsFrom_sorted {stop : ℕ} (hstop : stop < 2 ^ 32) :
    ∀ fuel cur, (∀ c ∈ cidrsFrom stop fuel cur, cur ≤ c.network.toNat) ∧
      (cidrsFrom stop fuel cur).Pairwise fun c c' => c.network.toNat < c'.network.toNat := by
  intro fuel
  induction fuel with
  | zero => exact fun _ => ⟨by simp [cidrsFrom], List.Pairwise.nil⟩
  | succ fuel ih =>
    intro cur
    by_cases h : cur ≤ stop
    · have positive : 0 < 2 ^ roundBits cur stop := Nat.two_pow_pos _
      have first : (UInt32.ofNat cur).toNat = cur := toNat_address (h.trans_lt hstop)
      obtain ⟨later, sorted⟩ := ih (cur + 2 ^ roundBits cur stop)
      rw [cidrsFrom_round h]
      refine ⟨?_, List.pairwise_cons.mpr ⟨?_, sorted⟩⟩
      · intro c hc
        rcases List.mem_cons.mp hc with rfl | hc
        · exact first.ge
        · exact (Nat.le_add_right _ _).trans (later c hc)
      · intro c hc
        have := later c hc
        rw [first]
        omega
    · rw [cidrsFrom_past h]
      exact ⟨by simp, List.Pairwise.nil⟩

end IpRange

/-- The first address of the block of a prefix. -/
def Cidr.first (c : Cidr) : ℕ :=
  c.network.toNat / 2 ^ (32 - c.prefixLen.toNat) * 2 ^ (32 - c.prefixLen.toNat)

/-- The addresses a prefix covers are an aligned block of the address space. -/
theorem Cidr.covers_iff (c : Cidr) (ipv4 : UInt32) :
    c.Covers ipv4 ↔ c.first ≤ ipv4.toNat ∧ ipv4.toNat < c.first + 2 ^ (32 - c.prefixLen.toNat) := by
  have positive : 0 < 2 ^ (32 - c.prefixLen.toNat) := Nat.two_pow_pos _
  have aligned : 2 ^ (32 - c.prefixLen.toNat) ∣ c.first := Nat.dvd_mul_left _ _
  rw [← div_eq_div_iff_of_dvd positive aligned, Cidr.first, Nat.mul_div_cancel _ positive]
  exact Iff.rfl

theorem Cidr.first_add_le (c : Cidr) : c.first + 2 ^ (32 - c.prefixLen.toNat) ≤ 2 ^ 32 := by
  have space : 2 ^ (32 - c.prefixLen.toNat) ∣ 2 ^ 32 := Nat.pow_dvd_pow 2 (Nat.sub_le _ _)
  have inside : c.first < 2 ^ 32 := (Nat.div_mul_le_self _ _).trans_lt c.network.toNat_lt
  obtain ⟨q, hq⟩ := space
  rw [Cidr.first, Nat.mul_comm] at inside ⊢
  rw [hq] at inside ⊢
  have more := Nat.lt_of_mul_lt_mul_left inside
  have fits := Nat.mul_le_mul_left (2 ^ (32 - c.prefixLen.toNat)) more
  rwa [Nat.mul_succ] at fits

namespace IpRange

section Cidrs

variable (range : IpRange)

/-- The prefixes start in rising order. -/
theorem cidrs_sorted : range.cidrs.Pairwise fun c c' => c.network.toNat < c'.network.toNat :=
  (cidrsFrom_sorted range.stop.toNat_lt _ _).2

theorem cidrs_nodup : range.cidrs.Nodup := by
  refine (cidrs_sorted range).imp ?_
  intro c _ lt same
  subst same
  exact Nat.lt_irrefl _ lt

theorem cidrs_network_inj {c c' : Cidr} (hc : c ∈ range.cidrs) (hc' : c' ∈ range.cidrs)
    (same : c.network.toNat = c'.network.toNat) : c = c' := by
  have starts : (range.cidrs.map fun c => c.network.toNat).Nodup :=
    List.pairwise_map.mpr ((cidrs_sorted range).imp Nat.ne_of_lt)
  exact List.inj_on_of_nodup_map starts hc hc' same

/-- No prefix of the range begins strictly inside an aligned block of the range. -/
theorem cidrs_boundary : ∀ c ∈ range.cidrs,
    Boundary range.start.toNat range.stop.toNat c.network.toNat :=
  cidrsFrom_boundary range.stop.toNat_lt _ _ fun _ _ _ low _ before =>
    absurd before (Nat.not_lt.mpr low)

/-- A prefix inside the range that covers the first address of one of `cidrs` begins there. -/
theorem first_eq_network {c g : Cidr} (hg : g ∈ range.cidrs)
    (inside : ∀ ipv4, c.Covers ipv4 → range.contains ipv4 = true) (covers : c.Covers g.network) :
    c.first = g.network.toNat := by
  have positive : 0 < 2 ^ (32 - c.prefixLen.toNat) := Nat.two_pow_pos _
  have fits := c.first_add_le
  have member : ∀ n, c.first ≤ n → n < c.first + 2 ^ (32 - c.prefixLen.toNat) →
      range.start.toNat ≤ n ∧ n ≤ range.stop.toNat := by
    intro n low high
    have address : (UInt32.ofNat n).toNat = n := toNat_address (by omega)
    have contained := inside (UInt32.ofNat n) ((c.covers_iff _).mpr (by rw [address]; exact ⟨low, high⟩))
    rw [contains, Bool.and_eq_true, decide_eq_true_eq, decide_eq_true_eq,
      UInt32.le_iff_toNat_le, UInt32.le_iff_toNat_le, address] at contained
    exact contained
  have low := member c.first (Nat.le_refl _) (by omega)
  have high := member (c.first + 2 ^ (32 - c.prefixLen.toNat) - 1) (by omega) (by omega)
  obtain ⟨reaches, within⟩ := (c.covers_iff _).mp covers
  by_contra apart
  have ends := cidrs_boundary range g hg c.first _ (Nat.dvd_mul_left _ _) low.1
    (by omega) (by omega)
  omega

/-- A set of prefixes with the same union is no smaller. -/
theorem cidrs_minimal (other : Finset Cidr)
    (same : ∀ ipv4, (∃ c ∈ other, c.Covers ipv4) ↔ ∃ c ∈ range.cidrs, c.Covers ipv4) :
    range.cidrs.length ≤ other.card := by
  rw [← List.toFinset_card_of_nodup (cidrs_nodup range)]
  refine Finset.card_le_card_of_forall_subsingleton (fun g c => c.Covers g.network) ?_ ?_
  · intro g hg
    have own : g.Covers g.network := rfl
    exact (same g.network).mpr ⟨g, List.mem_toFinset.mp hg, own⟩
  · rintro c hc g ⟨hg, covers⟩ g' ⟨hg', covers'⟩
    have inside : ∀ ipv4, c.Covers ipv4 → range.contains ipv4 = true := fun ipv4 covered =>
      (cidrs_covers range ipv4).mp ((same ipv4).mp ⟨c, hc, covered⟩)
    have hg := List.mem_toFinset.mp hg
    have hg' := List.mem_toFinset.mp hg'
    refine cidrs_network_inj range hg hg' ?_
    rw [← first_eq_network range hg inside covers, ← first_eq_network range hg' inside covers']

end Cidrs

/-! ### No more than 62 -/

/-- When fewer addresses are left than the last block had, the blocks only get smaller. -/
theorem cidrsFrom_falling {stop : ℕ} (hstop : stop < 2 ^ 32) :
    ∀ fuel cur b, 2 ^ b ∣ cur → stop + 1 < cur + 2 ^ b →
      (cidrsFrom stop fuel cur).length ≤ b := by
  intro fuel
  induction fuel with
  | zero => exact fun _ _ _ _ => Nat.zero_le _
  | succ fuel ih =>
    intro cur b aligned short
    by_cases h : cur ≤ stop
    · have inside := roundBits_inside h
      have smaller : roundBits cur stop < b := by
        rw [← Nat.pow_lt_pow_iff_right (a := 2) (by decide)]
        omega
      have rest : stop + 1 < cur + 2 ^ roundBits cur stop + 2 ^ roundBits cur stop := by
        by_contra room
        have next : 2 ^ (roundBits cur stop + 1) ∣ cur :=
          (Nat.pow_dvd_pow 2 smaller).trans aligned
        have larger := le_roundBits h hstop next (by rw [pow_succ]; omega)
        omega
      have dvd : 2 ^ roundBits cur stop ∣ cur + 2 ^ roundBits cur stop :=
        Nat.dvd_add (roundBits_dvd h) (Nat.dvd_refl _)
      rw [cidrsFrom_round h, List.length_cons]
      exact (Nat.succ_le_succ (ih _ _ dvd rest)).trans smaller
    · rw [cidrsFrom_past h]
      exact Nat.zero_le _

/-- While alignment limits the blocks they only get larger, until the end of the range does. -/
theorem cidrsFrom_rising {stop : ℕ} (hstop : stop < 2 ^ 32) :
    ∀ fuel cur a, 0 < cur → 2 ^ a ∣ cur → a ≤ 31 →
      (cidrsFrom stop fuel cur).length ≤ 62 - a := by
  intro fuel
  induction fuel with
  | zero => exact fun _ _ _ _ _ => Nat.zero_le _
  | succ fuel ih =>
    intro cur a positive aligned word
    by_cases h : cur ≤ stop
    · have inside := roundBits_inside h
      have dvd := roundBits_dvd h
      rw [cidrsFrom_round h, List.length_cons]
      generalize hbits : roundBits cur stop = b at inside dvd
      have small : b ≤ 31 := by
        rw [← Nat.lt_succ_iff, ← Nat.pow_lt_pow_iff_right (a := 2) (by decide)]
        omega
      rcases Nat.lt_or_ge b 31 with below | top
      · by_cases room : cur + 2 ^ (b + 1) ≤ stop + 1
        · have odd : ¬ 2 ^ (b + 1) ∣ cur := fun next => by
            have larger := le_roundBits h hstop next room
            omega
          have low : a ≤ b := by
            by_contra high
            exact odd ((Nat.pow_dvd_pow 2 (Nat.not_le.mp high)).trans aligned)
          have next : 2 ^ (b + 1) ∣ cur + 2 ^ b := by
            obtain ⟨q, hq⟩ := dvd
            rcases Nat.even_or_odd q with ⟨r, hr⟩ | ⟨r, hr⟩
            · exact absurd ⟨r, by rw [hq, hr]; ring⟩ odd
            · exact ⟨r + 1, by rw [hq, hr]; ring⟩
          have rest := ih (cur + 2 ^ b) (b + 1) (by omega) next (by omega)
          omega
        · rw [pow_succ] at room
          have rest := cidrsFrom_falling hstop fuel (cur + 2 ^ b) b
            (Nat.dvd_add dvd (Nat.dvd_refl _)) (by omega)
          omega
      · obtain rfl : b = 31 := Nat.le_antisymm small top
        have half := Nat.le_of_dvd positive dvd
        rw [cidrsFrom_past (by omega), List.length_nil]
        omega
    · rw [cidrsFrom_past h]
      exact Nat.zero_le _

theorem cidrs_length_le (range : IpRange) : range.cidrs.length ≤ 62 := by
  have hstop := range.stop.toNat_lt
  rw [cidrs]
  generalize range.stop.toNat + 1 - range.start.toNat = fuel
  by_cases zero : range.start.toNat = 0
  · rw [zero]
    have falling := cidrsFrom_falling hstop fuel 0 33 (Nat.dvd_zero _) (by omega)
    omega
  · exact cidrsFrom_rising hstop fuel _ 0 (Nat.pos_of_ne_zero zero) (Nat.one_dvd _)
      (by decide)

/-! ### No wrap -/

theorem tracedBlockBits_yields {cur stop alignBits : ℕ} (hcur : cur < 2 ^ 32) :
    ∀ fuel bits, Traced.Yields (fun _ => False)
      (tracedBlockBits cur stop alignBits fuel bits) (blockBits cur stop alignBits fuel bits) := by
  intro fuel
  induction fuel with
  | zero =>
    intro bits
    exact .pure bits
  | succ fuel ih =>
    intro bits
    unfold tracedBlockBits blockBits
    by_cases grows : bits < alignBits ∧ bits < 32
    · have size : 1 * 2 ^ (bits + 1) ≤ 2 ^ 32 := by
        rw [Nat.one_mul]
        exact Nat.pow_le_pow_right (by decide) grows.2
      have positive : 0 < 2 ^ (bits + 1) := Nat.two_pow_pos _
      rw [if_pos grows]
      refine .bind (.add (by omega)) (.bind (.narrow (by omega)) ?_)
      refine .bind (.shl (by omega) (by omega)) (.bind (.add (by omega)) ?_)
      refine .bind (.sub (by omega) (by omega)) ?_
      rw [Nat.one_mul]
      by_cases inside : cur + 2 ^ (bits + 1) - 1 ≤ stop
      · rw [if_neg (Nat.not_lt.mpr inside), if_pos ⟨grows.1, grows.2, inside⟩]
        exact ih (bits + 1)
      · rw [if_pos (Nat.not_le.mp inside), if_neg fun all => inside all.2.2]
        exact .pure bits
    · rw [if_neg grows, if_neg fun all => grows ⟨all.1, all.2.1⟩]
      exact .pure bits

theorem tracedCidrsFrom_yields {stop : ℕ} (hstop : stop < 2 ^ 32) :
    ∀ fuel cur, Traced.Yields (fun _ => False)
      (tracedCidrsFrom stop fuel cur) (cidrsFrom stop fuel cur) := by
  intro fuel
  induction fuel with
  | zero =>
    intro cur
    exact .pure []
  | succ fuel ih =>
    intro cur
    by_cases h : cur ≤ stop
    · have word := roundBits_le h
      have inside := roundBits_inside h
      have same : 1 * 2 ^ roundBits cur stop = 2 ^ roundBits cur stop := Nat.one_mul _
      rw [cidrsFrom_round h]
      unfold tracedCidrsFrom
      rw [if_pos h]
      refine .bind (v := roundBits cur stop) (tracedBlockBits_yields (by omega) 32 0) ?_
      refine .bind (.sub (by decide) word) (.bind (.narrow (by omega)) ?_)
      refine .bind (.narrow (by omega)) (.bind (.narrow (by omega)) ?_)
      refine .bind (.shl (by omega) (by omega)) (.bind (.add (by omega)) ?_)
      rw [same]
      exact .bind (ih _) (.pure _)
    · rw [cidrsFrom_past h]
      unfold tracedCidrsFrom
      rw [if_neg h]
      exact .pure []

/-- Every operation of `span` is exact on an aligned prefix. -/
theorem tracedSpan_yields {c : Cidr} (h : c.Aligned) :
    Traced.Yields (fun _ => False) c.tracedSpan c.span := by
  have hlen := h.prefixLen_le
  have hnet := c.network.toNat_lt
  have positive : 0 < 2 ^ (32 - c.prefixLen.toNat) := Nat.two_pow_pos _
  have small : 2 ^ (32 - c.prefixLen.toNat) ≤ 2 ^ 32 :=
    Nat.pow_le_pow_right (by decide) (Nat.sub_le _ _)
  have inside : c.network.toNat + 2 ^ (32 - c.prefixLen.toNat) ≤ 2 ^ 32 := by
    have fits := c.first_add_le
    rwa [Cidr.first, Nat.div_mul_cancel h.dvd] at fits
  unfold Cidr.tracedSpan Cidr.span
  refine .bind (v := 2 ^ (32 - c.prefixLen.toNat)) (.branch (?_) (?_)) ?_
  · intro whole
    rw [whole]
    exact .shl (by decide) (by decide)
  · intro part
    refine .bind (.sub (by decide) hlen) (.bind (.narrow (by omega)) ?_)
    exact (Traced.Yields.shl (by omega) (by omega)).of_eq (Nat.one_mul _)
  · refine .bind (.narrow hnet) (.bind (.add (by omega)) (.bind (.sub (by omega) (by omega)) ?_))
    exact .bind (.narrow (by omega)) (.pure _)

/-- Compilation of a range is exact and minimal: both loops end, the prefixes are aligned and
tile the range, no set of prefixes with the same union is smaller, there are at most 62, and
no operation wraps or truncates. -/
theorem cidrs_exact_and_minimal (range : IpRange) (h : range.start ≤ range.stop) :
    (∀ fuel, range.stop.toNat + 1 - range.start.toNat ≤ fuel →
      cidrsFrom range.stop.toNat fuel range.start.toNat = range.cidrs) ∧
    (∀ cur alignBits fuel, 32 ≤ fuel → blockBits cur range.stop.toNat alignBits fuel 0 =
      blockBits cur range.stop.toNat alignBits 32 0) ∧
    (∀ c ∈ range.cidrs, c.Aligned) ∧
    Tile range.stop.toNat range.start.toNat (range.cidrs.map Cidr.span) ∧
    (∀ other : Finset Cidr,
      (∀ ipv4, (∃ c ∈ other, c.Covers ipv4) ↔ ∃ c ∈ range.cidrs, c.Covers ipv4) →
      range.cidrs.length ≤ other.card) ∧
    range.cidrs.length ≤ 62 ∧
    Traced.Yields (fun _ => False) range.tracedCidrs range.cidrs ∧
    ∀ c ∈ range.cidrs, Traced.Yields (fun _ => False) c.tracedSpan c.span := by
  have order : range.start.toNat ≤ range.stop.toNat := h
  refine ⟨?_, fun cur alignBits fuel enough =>
    blockBits_fuel fuel 32 0 (by omega) (by decide), cidrs_aligned range, ?_,
    cidrs_minimal range, cidrs_length_le range, ?_, fun c hc => tracedSpan_yields (cidrs_aligned range c hc)⟩
  · intro fuel enough
    exact cidrsFrom_fuel _ _ _ (by omega) (by omega)
  · exact cidrsFrom_tile range.stop.toNat_lt _ _ (by omega) (by omega)
  · exact tracedCidrsFrom_yields range.stop.toNat_lt _ _

def widest : IpRange := ⟨"wide", 1, 4294967294⟩

/-- The range from 0.0.0.1 through 255.255.255.254 takes all 62. -/
theorem cidrs_exact_and_minimal_widest :
    widest.cidrs.length = 62 ∧ ∀ other : Finset Cidr,
      (∀ ipv4, (∃ c ∈ other, c.Covers ipv4) ↔ ∃ c ∈ widest.cidrs, c.Covers ipv4) →
      62 ≤ other.card := by
  have length : widest.cidrs.length = 62 := by rfl
  have minimal := (cidrs_exact_and_minimal widest (by decide)).2.2.2.2.1
  rw [length] at minimal
  exact ⟨length, minimal⟩

end IpRange

end VmWatcher

import VmWatcher.Core.IpRange
import VmWatcher.Misc.BitPrefix

/-!
# A range and its prefixes

`cidrs` cuts a range into aligned blocks: every prefix it yields is a block inside the
range, and the blocks cover the range (`cidrs_covers`).
-/

namespace VmWatcher

/-- The prefix is a block that starts at its own first address. -/
structure Cidr.Aligned (c : Cidr) : Prop where
  prefixLen_le : c.prefixLen.toNat ≤ 32
  dvd : 2 ^ (32 - c.prefixLen.toNat) ∣ c.network.toNat

namespace IpRange

theorem trailingZeros_dvd (fuel n : ℕ) : 2 ^ trailingZeros fuel n ∣ n := by
  induction fuel generalizing n with
  | zero => simp [trailingZeros]
  | succ fuel ih =>
    unfold trailingZeros
    by_cases even : n % 2 = 0
    · rw [if_pos even, pow_succ]
      have half : n = n / 2 * 2 := by omega
      conv_rhs => rw [half]
      exact Nat.mul_dvd_mul_right (ih (n / 2)) 2
    · rw [if_neg even, pow_zero]
      exact Nat.one_dvd n

/-- A block of `2 ^ bits` addresses from `cur` on: aligned, no larger than the address
space, and inside the range. -/
structure Block (cur stop alignBits bits : ℕ) : Prop where
  aligned : bits ≤ alignBits
  word : bits ≤ 32
  inside : cur + 2 ^ bits ≤ stop + 1

theorem blockBits_block {cur stop alignBits : ℕ} :
    ∀ fuel bits, Block cur stop alignBits bits →
      Block cur stop alignBits (blockBits cur stop alignBits fuel bits) := by
  intro fuel
  induction fuel with
  | zero =>
    intro _ h
    exact h
  | succ fuel ih =>
    intro bits h
    unfold blockBits
    split
    next grows =>
      refine ih (bits + 1) ⟨grows.1, grows.2.1, ?_⟩
      have := grows.2.2
      omega
    next => exact h

/-- The block a round of `cidrs` takes. -/
theorem round_block {cur stop : ℕ} (h : cur ≤ stop) :
    let alignBits := if cur = 0 then 32 else trailingZeros 64 cur
    Block cur stop alignBits (blockBits cur stop alignBits 32 0) ∧
      2 ^ blockBits cur stop alignBits 32 0 ∣ cur := by
  intro alignBits
  have block : Block cur stop alignBits (blockBits cur stop alignBits 32 0) :=
    blockBits_block 32 0 ⟨Nat.zero_le _, by decide, by simpa using h⟩
  refine ⟨block, (Nat.pow_dvd_pow 2 block.aligned).trans ?_⟩
  by_cases hzero : cur = 0
  · simp [hzero]
  · have : alignBits = trailingZeros 64 cur := if_neg hzero
    rw [this]
    exact trailingZeros_dvd 64 cur

/-- The prefix of such a block. -/
theorem toNat_prefix {cur bits : ℕ} (hbits : bits ≤ 32) (hcur : cur < 2 ^ 32) :
    (UInt8.ofNat (32 - bits)).toNat = 32 - bits ∧ (UInt32.ofNat cur).toNat = cur := by
  constructor
  · rw [UInt8.toNat_ofNat']
    exact Nat.mod_eq_of_lt (by omega)
  · rw [UInt32.toNat_ofNat']
    exact Nat.mod_eq_of_lt hcur

theorem cidrsFrom_aligned {stop : ℕ} (hstop : stop < 2 ^ 32) :
    ∀ fuel cur, ∀ c ∈ cidrsFrom stop fuel cur, c.Aligned := by
  intro fuel
  induction fuel with
  | zero =>
    intro cur c h
    cases h
  | succ fuel ih =>
    intro cur c h
    unfold cidrsFrom at h
    by_cases hcur : cur ≤ stop
    · obtain ⟨block, dvd⟩ := round_block hcur
      obtain ⟨hlen, hnet⟩ := toNat_prefix block.word (hcur.trans_lt hstop)
      rw [if_pos hcur] at h
      rcases List.mem_cons.mp h with rfl | h
      · refine ⟨?_, ?_⟩
        · rw [hlen]
          exact Nat.sub_le 32 _
        · rw [hlen, hnet, Nat.sub_sub_self block.word]
          exact dvd
      · exact ih _ c h
    · rw [if_neg hcur] at h
      cases h

theorem cidrsFrom_covers {stop : ℕ} (hstop : stop < 2 ^ 32) (ipv4 : UInt32) :
    ∀ fuel cur, stop + 1 ≤ cur + fuel →
      ((∃ c ∈ cidrsFrom stop fuel cur, c.Covers ipv4) ↔
        cur ≤ ipv4.toNat ∧ ipv4.toNat ≤ stop) := by
  intro fuel
  induction fuel with
  | zero =>
    intro cur enough
    simp only [cidrsFrom, List.not_mem_nil, false_and, exists_false, false_iff]
    omega
  | succ fuel ih =>
    intro cur enough
    unfold cidrsFrom
    by_cases hcur : cur ≤ stop
    · obtain ⟨block, dvd⟩ := round_block hcur
      obtain ⟨hlen, hnet⟩ := toNat_prefix block.word (hcur.trans_lt hstop)
      set alignBits := if cur = 0 then 32 else trailingZeros 64 cur
      set bits := blockBits cur stop alignBits 32 0
      have size : 0 < 2 ^ bits := Nat.two_pow_pos bits
      have rest := ih (cur + 2 ^ bits) (by omega)
      have first : Cidr.Covers ⟨UInt8.ofNat (32 - bits), UInt32.ofNat cur⟩ ipv4 ↔
          cur ≤ ipv4.toNat ∧ ipv4.toNat < cur + 2 ^ bits := by
        unfold Cidr.Covers
        rw [hlen, hnet, Nat.sub_sub_self block.word]
        exact div_eq_div_iff_of_dvd size dvd
      rw [if_pos hcur]
      have inside := block.inside
      constructor
      · intro h
        obtain ⟨c, hc, covers⟩ := h
        rcases List.mem_cons.mp hc with rfl | hc
        · have := first.mp covers
          omega
        · have := rest.mp ⟨c, hc, covers⟩
          omega
      · intro within
        by_cases hfirst : ipv4.toNat < cur + 2 ^ bits
        · exact ⟨_, List.mem_cons_self, first.mpr ⟨within.1, hfirst⟩⟩
        · obtain ⟨c, hc, covers⟩ := rest.mpr ⟨by omega, within.2⟩
          exact ⟨c, List.mem_cons_of_mem _ hc, covers⟩
    · rw [if_neg hcur]
      simp only [List.not_mem_nil, false_and, exists_false, false_iff]
      omega

theorem cidrs_aligned (range : IpRange) : ∀ c ∈ range.cidrs, c.Aligned :=
  cidrsFrom_aligned range.stop.toNat_lt _ _

/-- The union of the prefixes is exactly the range. -/
theorem cidrs_covers (range : IpRange) (ipv4 : UInt32) :
    (∃ c ∈ range.cidrs, c.Covers ipv4) ↔ range.contains ipv4 = true := by
  have enough : range.stop.toNat + 1 ≤
      range.start.toNat + (range.stop.toNat + 1 - range.start.toNat) := by omega
  rw [cidrs, cidrsFrom_covers range.stop.toNat_lt ipv4 _ _ enough, contains, Bool.and_eq_true,
    decide_eq_true_eq, decide_eq_true_eq, UInt32.le_iff_toNat_le, UInt32.le_iff_toNat_le]

end IpRange

end VmWatcher

import VmWatcher.Core.Proofs.Recovery

/-!
# Which range entries are accepted

`validate_ranges` compares neighbours of the ranges sorted by their first address; what it
accepts are exactly the entries that spell pairwise disjoint ranges under distinct names,
and the ranges come out in the order of the entries.
-/

namespace VmWatcher

/-! ### One entry -/

theorem splitOnce_self (sep : Char) (s : List Char) :
    splitOnce sep (sep :: s) = some ([], s) := by
  simp [splitOnce]

theorem splitOnce_skip {sep c : Char} (h : c ≠ sep) (s : List Char) :
    splitOnce sep (c :: s) =
      (splitOnce sep s).map fun (left, right) => (c :: left, right) := by
  unfold splitOnce
  by_cases found : sep ∈ s
  · simp [found, h]
  · simp [found, Ne.symm h]

/-- `split_once` cuts at the first separator. -/
theorem splitOnce_eq_some {sep : Char} {s left right : List Char} :
    splitOnce sep s = some (left, right) ↔ s = left ++ sep :: right ∧ sep ∉ left := by
  induction s generalizing left right with
  | nil => simp [splitOnce]
  | cons c s ih =>
    by_cases here : c = sep
    · subst here
      rw [splitOnce_self]
      cases left with
      | nil => simp
      | cons d left =>
        refine ⟨nofun, fun ⟨whole, absent⟩ => ?_⟩
        obtain ⟨rfl, -⟩ := List.cons.inj whole
        exact absurd List.mem_cons_self absent
    · rw [splitOnce_skip here]
      cases left with
      | nil => simp [here]
      | cons d left =>
        simp only [Option.map_eq_some_iff, Prod.exists, ih, Prod.mk.injEq, List.cons.injEq,
          List.cons_append, List.mem_cons, not_or]
        constructor
        · intro h
          obtain ⟨left', right', ⟨whole, absent⟩, ⟨rfl, rfl⟩, rfl⟩ := h
          exact ⟨⟨rfl, whole⟩, Ne.symm here, absent⟩
        · intro h
          obtain ⟨⟨rfl, whole⟩, -, absent⟩ := h
          exact ⟨left, right, ⟨whole, absent⟩, ⟨rfl, rfl⟩, rfl⟩

/-- The text is two IPv4 addresses, with whitespace around them, joined by a single `-`,
the first no greater than the second. -/
def Spells (raw : String) (start stop : UInt32) : Prop :=
  ∃ left right, raw.toList = left ++ '-' :: right ∧ '-' ∉ left ∧ '-' ∉ right ∧
    parseIpv4 (trim left) = some start ∧ parseIpv4 (trim right) = some stop ∧ start ≤ stop

theorem parseIp_eq_ok {what : String} {raw : List Char} {ip : UInt32} :
    parseIp what raw = .ok ip ↔ parseIpv4 (trim raw) = some ip := by
  unfold parseIp
  cases parseIpv4 (trim raw) with
  | none => exact ⟨nofun, nofun⟩
  | some found => simp

open ExceptRules in
theorem parseRange_eq_ok {raw : String} {start stop : UInt32} :
    parseRange raw = .ok (start, stop) ↔ Spells raw start stop := by
  unfold parseRange Spells
  cases split : splitOnce '-' raw.toList with
  | none =>
    refine ⟨fun h => absurd h throw_ne_ok, ?_⟩
    intro given
    obtain ⟨left, right, whole, absent, -⟩ := given
    rw [splitOnce_eq_some.mpr ⟨whole, absent⟩] at split
    cases split
  | some parts =>
    obtain ⟨left, right⟩ := parts
    obtain ⟨whole, absent⟩ := splitOnce_eq_some.mp split
    dsimp only
    simp only [check_eq_ok, bind_eq_ok, mapError_eq_ok, parseIp_eq_ok, pure_eq_ok, Prod.mk.injEq]
    constructor
    · intro given
      obtain ⟨single, start', first, stop', second, order, rfl, rfl⟩ := given
      refine ⟨left, right, whole, absent, ?_, first, second, UInt32.not_lt.mp order⟩
      simpa using single
    · intro given
      obtain ⟨left', right', whole', absent', single, first, second, order⟩ := given
      have same := split.symm.trans (splitOnce_eq_some.mpr ⟨whole', absent'⟩)
      obtain ⟨rfl, rfl⟩ := Prod.mk.inj (Option.some.inj same)
      exact ⟨by simpa using single, start, first, stop, second, UInt32.not_lt.mpr order, rfl, rfl⟩

/-! ### All entries -/

/-- The range the entry stands for. -/
def IpRangeEntry.Yields (entry : IpRangeEntry) (range : IpRange) : Prop :=
  range.name = entry.name ∧ Spells entry.range range.start range.stop

/-- The name is neither blank nor reserved. -/
def IpRangeEntry.Named (entry : IpRangeEntry) : Prop :=
  trim entry.name.toList ≠ [] ∧ entry.name ≠ ipv6RangeName

open ExceptRules in
/-- The loop accepts named entries with fresh, distinct names and valid texts, and appends
their ranges in order. -/
theorem validateEntries_eq_ok {entries : List IpRangeEntry} {names : List String}
    {ranges result : List IpRange} :
    validateEntries entries names ranges = .ok result ↔
      (∀ entry ∈ entries, entry.Named ∧ entry.name ∉ names) ∧
        (entries.map IpRangeEntry.name).Nodup ∧
        ∃ new, result = ranges ++ new ∧ List.Forall₂ IpRangeEntry.Yields entries new := by
  induction entries generalizing names ranges with
  | nil =>
    rw [validateEntries, pure_eq_ok]
    simp [eq_comm]
  | cons entry rest ih =>
    rw [validateEntries]
    simp only [check_eq_ok, bind_eq_ok, ih, Prod.exists, parseRange_eq_ok]
    constructor
    · intro h
      obtain ⟨blank, reserved, fresh, start, stop, spells, named, distinct, new, rfl, yields⟩ := h
      refine ⟨?_, ?_, ⟨entry.name, start, stop⟩ :: new, by simp, .cons ⟨rfl, spells⟩ yields⟩
      · intro other hother
        rcases List.mem_cons.mp hother with rfl | hother
        · exact ⟨⟨by simpa using blank, reserved⟩, fresh⟩
        · obtain ⟨named, absent⟩ := named other hother
          exact ⟨named, fun seen => absent (List.mem_cons_of_mem _ seen)⟩
      · refine List.nodup_cons.mpr ⟨fun seen => ?_, distinct⟩
        obtain ⟨other, hother, same⟩ := List.mem_map.mp seen
        exact (named other hother).2 (same ▸ List.mem_cons_self)
    · intro h
      obtain ⟨named, distinct, new, rfl, yields⟩ := h
      obtain ⟨absent, distinct⟩ := List.nodup_cons.mp distinct
      obtain ⟨⟨blank, reserved⟩, fresh⟩ := named entry List.mem_cons_self
      cases yields with
      | @cons _ range _ new first yields =>
        obtain ⟨name, start, stop⟩ := range
        obtain ⟨rfl, spells⟩ := first
        refine ⟨by simpa using blank, reserved, fresh, start, stop, spells, fun other hother => ?_,
          distinct, new, by simp, yields⟩
        obtain ⟨named, absent'⟩ := named other (List.mem_cons_of_mem _ hother)
        refine ⟨named, ?_⟩
        intro seen
        rcases List.mem_cons.mp seen with same | seen
        · exact absent (same ▸ List.mem_map_of_mem hother)
        · exact absent' seen

/-! ### Disjoint ranges -/

namespace IpRange

/-- No address belongs to both. -/
def Apart (a b : IpRange) : Prop := ∀ ip, ¬ (a.contains ip = true ∧ b.contains ip = true)

/-- The first range ends before the second one, which is not reversed, begins. -/
def Before (a b : IpRange) : Prop := a.stop < b.start ∧ b.start ≤ b.stop

instance : Trans Before Before Before :=
  ⟨fun ⟨ab, b⟩ ⟨bc, c⟩ => ⟨UInt32.lt_trans (UInt32.lt_of_lt_of_le ab b) bc, c⟩⟩

theorem Apart.symm {a b : IpRange} (h : Apart a b) : Apart b a := fun ip both => h ip both.symm

theorem contains_iff {range : IpRange} {ip : UInt32} :
    range.contains ip = true ↔ range.start ≤ ip ∧ ip ≤ range.stop := by
  simp [contains]

theorem Before.apart {a b : IpRange} (h : Before a b) : Apart a b := by
  intro ip given
  obtain ⟨inA, inB⟩ := given
  have ends := (contains_iff.mp inA).2
  have begins := (contains_iff.mp inB).1
  exact UInt32.lt_irrefl _ (UInt32.lt_of_lt_of_le h.1 (UInt32.le_trans begins ends))

/-- Of two ranges with no address in common the one that begins first ends first. -/
theorem Apart.before {a b : IpRange} (h : Apart a b) (order : a.start ≤ b.start)
    (proper : b.start ≤ b.stop) : Before a b := by
  refine ⟨?_, proper⟩
  by_contra meets
  exact h b.start ⟨contains_iff.mpr ⟨order, UInt32.not_lt.mp meets⟩,
    contains_iff.mpr ⟨UInt32.le_refl _, proper⟩⟩

open ExceptRules in
/-- The check of the neighbours passes when each ends before the next begins. -/
theorem checkOverlap_eq_ok {ranges : List IpRange}
    (proper : ∀ range ∈ ranges, range.start ≤ range.stop) :
    checkOverlap ranges = .ok () ↔ ranges.IsChain Before := by
  induction ranges with
  | nil => simp [checkOverlap]
  | cons a rest ih =>
    have ih := ih fun range hrange => proper range (List.mem_cons_of_mem a hrange)
    cases rest with
    | nil => simp [checkOverlap]
    | cons b rest =>
      have properB := proper b (List.mem_cons_of_mem a List.mem_cons_self)
      rw [checkOverlap, check_eq_ok, ih, List.isChain_cons_cons, Before, UInt32.not_le]
      simp [properB]

instance : Std.Total fun a b : IpRange => a.start ≤ b.start :=
  ⟨fun a b => UInt32.le_total a.start b.start⟩

instance : IsTrans IpRange fun a b => a.start ≤ b.start := ⟨fun _ _ _ => UInt32.le_trans⟩

/-- The check passes for the sorted ranges exactly when the ranges are pairwise disjoint,
whatever their order. -/
theorem checkOverlap_sorted {ranges : List IpRange}
    (proper : ∀ range ∈ ranges, range.start ≤ range.stop) :
    checkOverlap (ranges.insertionSort fun a b => a.start ≤ b.start) = .ok () ↔
      ranges.Pairwise Apart := by
  have perm := List.perm_insertionSort (fun a b : IpRange => a.start ≤ b.start) ranges
  have sorted := List.pairwise_insertionSort (fun a b : IpRange => a.start ≤ b.start) ranges
  rw [checkOverlap_eq_ok fun range hrange => proper range (perm.mem_iff.mp hrange),
    List.isChain_iff_pairwise, ← perm.pairwise_iff Apart.symm]
  constructor
  · exact List.Pairwise.imp Before.apart
  · intro apart
    refine (sorted.and apart).imp_of_mem fun {a b} _ hb both => ?_
    exact both.2.before both.1 (proper b (perm.mem_iff.mp hb))

end IpRange

theorem IpRangeEntry.Yields.proper {entry : IpRangeEntry} {range : IpRange}
    (h : entry.Yields range) : range.start ≤ range.stop := by
  obtain ⟨-, left, right, -, -, -, -, -, order⟩ := h
  exact order

theorem proper_of_yields {entries : List IpRangeEntry} {ranges : List IpRange}
    (h : List.Forall₂ IpRangeEntry.Yields entries ranges) :
    ∀ range ∈ ranges, range.start ≤ range.stop := by
  induction h with
  | nil => simp
  | cons first _ ih => exact List.forall_mem_cons.mpr ⟨first.proper, ih⟩

open ExceptRules in
/-- `validate_ranges` accepts exactly the entries that spell pairwise disjoint ranges under
distinct names, neither blank nor reserved, and yields their ranges in the order of the
entries. -/
theorem validateRanges_eq_ok {entries : List IpRangeEntry} {ranges : List IpRange} :
    validateRanges entries = .ok ranges ↔
      entries ≠ [] ∧ (∀ entry ∈ entries, entry.Named) ∧
        (entries.map IpRangeEntry.name).Nodup ∧
        List.Forall₂ IpRangeEntry.Yields entries ranges ∧ ranges.Pairwise IpRange.Apart := by
  rw [validateRanges]
  simp only [check_eq_ok, bind_eq_ok, validateEntries_eq_ok, pure_eq_ok, List.isEmpty_iff]
  constructor
  · intro h
    obtain ⟨some, validated, ⟨named, distinct, new, rfl, yields⟩, _, checked, rfl⟩ := h
    exact ⟨some, fun entry hentry => (named entry hentry).1, distinct, yields,
      (IpRange.checkOverlap_sorted (proper_of_yields yields)).mp checked⟩
  · intro h
    obtain ⟨some, named, distinct, yields, apart⟩ := h
    exact ⟨some, ranges, ⟨fun entry hentry => ⟨named entry hentry, List.not_mem_nil⟩, distinct,
      ranges, rfl, yields⟩, (), (IpRange.checkOverlap_sorted (proper_of_yields yields)).mpr apart,
      rfl⟩

/-- A range of the parsed configuration: the addresses of the entry, with the entry's own
policy and overrides. -/
def IpRangeEntry.Attached (swlEnabled : Bool) (entry : IpRangeEntry) (vr : ValidatedRange) :
    Prop := entry.Yields vr.inner ∧ attachPolicy swlEnabled entry vr.inner = .ok vr

open ExceptRules in
theorem attached_of_zip {swlEnabled : Bool} {entries : List IpRangeEntry} {ranges : List IpRange}
    (h : List.Forall₂ IpRangeEntry.Yields entries ranges) :
    ∀ {validated : List ValidatedRange}, ((entries.zip ranges).mapM fun (entry, range) =>
        attachPolicy swlEnabled entry range) = .ok validated →
      List.Forall₂ (IpRangeEntry.Attached swlEnabled) entries validated := by
  induction h with
  | nil =>
    intro validated run
    rw [List.zip_nil_left, List.mapM_nil, pure_eq_ok] at run
    exact run ▸ .nil
  | @cons entry range entries ranges yields _ ih =>
    intro validated run
    simp only [List.zip_cons_cons, List.mapM_cons, bind_eq_ok, pure_eq_ok] at run
    obtain ⟨vr, attached, rest, hrest, rfl⟩ := run
    have same := (attachPolicy_bounded attached).1
    exact .cons ⟨same ▸ yields, same ▸ attached⟩ (ih hrest)

open ExceptRules in
theorem Config.parse_attached {parseUrl : String → Except String Url} {config : Config}
    {cfg : ValidatedConfig} (h : config.parse parseUrl = .ok cfg) :
    List.Forall₂ (IpRangeEntry.Attached config.experimental.enableSlidingWindowLog)
      config.ipRanges cfg.ranges := by
  simp only [Config.parse, check_eq_ok, bind_eq_ok, pure_eq_ok] at h
  obtain ⟨-, _, -, sort, -, _, -, ranges, hranges, validated, hvalidated, rfl⟩ := h
  exact attached_of_zip (validateRanges_eq_ok.mp hranges).2.2.2.1 hvalidated

/-! ### Printed addresses -/

theorem head_toDigits {n : ℕ} (h : (Nat.toDigits 10 n).head? = some '0') : n = 0 := by
  induction n using Nat.strongRecOn with
  | ind n ih =>
    rw [Nat.toDigits_eq_if (by decide)] at h
    split_ifs at h with small
    · have : ∀ k < 10, k.digitChar = '0' → k = 0 := by decide
      exact this n small (by simpa using h)
    · rw [List.head?_append_of_ne_nil _ Nat.toDigits_ne_nil] at h
      have := ih (n / 10) (by omega) h
      omega

theorem decimal_toDigits (n : ℕ) : decimal (Nat.toDigits 10 n) = n := by
  have same : ∀ (s : List Char) (k : ℕ),
      s.foldl (fun value c => value * 10 + (c.toNat - 48)) k = Nat.ofDigitChars 10 s k := by
    intro s
    induction s with
    | nil => intro k; rfl
    | cons c s ih => intro k; simp [Nat.ofDigitChars_cons, ih, Nat.mul_comm]
  rw [decimal, same, Nat.ofDigitChars_ten_toDigits]

theorem parseOctet_toDigits {n : ℕ} (h : n < 256) : parseOctet (Nat.toDigits 10 n) = some n := by
  have digits : (Nat.toDigits 10 n).all isAsciiDigit := by
    rw [List.all_eq_true]
    intro c hc
    have := Nat.isDigit_of_mem_toDigits (by decide) (by decide) hc
    simpa [Char.isDigit, isAsciiDigit, UInt32.le_iff_toNat_le] using this
  have short : (Nat.toDigits 10 n).length ≤ 3 :=
    (Nat.length_toDigits_le_iff (by decide) (by decide)).mpr (by omega)
  have zero : (Nat.toDigits 10 n).head? = some '0' → (Nat.toDigits 10 n).length = 1 := by
    intro h0
    rw [head_toDigits h0]
    rfl
  rw [parseOctet, decimal_toDigits, if_pos ⟨Nat.toDigits_ne_nil, short, digits, zero, by omega⟩]

theorem toString_uint32 (n : UInt32) : (toString n).toList = Nat.toDigits 10 n.toNat :=
  Nat.toList_repr

theorem toList_ipv4Display (ip : UInt32) :
    (ipv4Display ip).toList = Nat.toDigits 10 (ip.toNat / 16777216) ++
      '.' :: (Nat.toDigits 10 (ip.toNat / 65536 % 256) ++
        '.' :: (Nat.toDigits 10 (ip.toNat / 256 % 256) ++
          '.' :: Nat.toDigits 10 (ip.toNat % 256))) := by
  have dot : (toString ".").toList = ['.'] := by decide
  simp [ipv4Display, toString_uint32, dot]

theorem dot_notMem_toDigits (n : ℕ) : '.' ∉ Nat.toDigits 10 n := by
  intro h
  exact absurd (Nat.isDigit_of_mem_toDigits (by decide) (by decide) h) (by decide)

theorem splitOnce_dot (n : ℕ) (s : List Char) :
    splitOnce '.' (Nat.toDigits 10 n ++ '.' :: s) = some (Nat.toDigits 10 n, s) :=
  splitOnce_eq_some.mpr ⟨rfl, dot_notMem_toDigits n⟩

/-- A printed address is read back. -/
theorem parseIpv4_ipv4Display (ip : UInt32) : parseIpv4 (ipv4Display ip).toList = some ip := by
  have bound := ip.toNat_lt
  have whole : ip.toNat / 16777216 * 16777216 + ip.toNat / 65536 % 256 * 65536 +
      ip.toNat / 256 % 256 * 256 + ip.toNat % 256 = ip.toNat := by omega
  rw [toList_ipv4Display, parseIpv4]
  simp only [splitOnce_dot, Option.bind_eq_bind, Option.bind_some]
  rw [parseOctet_toDigits (by omega), parseOctet_toDigits (by omega),
    parseOctet_toDigits (by omega), parseOctet_toDigits (by omega)]
  simp only [Option.bind_some, whole, UInt32.ofNat_toNat, Option.pure_def]

/-! ### The ranges of a configuration -/

/-- Range validation accepts exactly the disjoint configurations, and a parsed configuration
has one range for each entry, in order, with the policy and the overrides of that entry. -/
theorem validateRanges_accepts_disjoint :
    (∀ entries ranges, validateRanges entries = .ok ranges ↔
      entries ≠ [] ∧ (∀ entry ∈ entries, entry.Named) ∧
        (entries.map IpRangeEntry.name).Nodup ∧
        List.Forall₂ IpRangeEntry.Yields entries ranges ∧ ranges.Pairwise IpRange.Apart) ∧
    ∀ (parseUrl : String → Except String Url) (config : Config) (cfg : ValidatedConfig),
      config.parse parseUrl = .ok cfg →
      List.Forall₂ (IpRangeEntry.Attached config.experimental.enableSlidingWindowLog)
        config.ipRanges cfg.ranges :=
  ⟨fun _ _ => validateRanges_eq_ok, fun _ _ _ => Config.parse_attached⟩

namespace Limiter

/-- A file whose ranges do not come in the order of their addresses, each with an override. -/
def pairedFile : Config :=
  { oneAddressFile none with
    ipRanges := [
      ⟨"b", "0.0.0.4-0.0.0.5", some receiveLimitEntry,
        [⟨"0.0.0.5", { algorithm := some "fixed_window", limitWindow := some "1s" }⟩]⟩,
      ⟨"a", "0.0.0.1 - 0.0.0.2", none, [⟨"0.0.0.2", receiveLimitEntry⟩]⟩] }

/-- What it is parsed to. -/
def paired : ValidatedConfig :=
  { oneAddress {} with
    ranges := [
      ⟨⟨"b", 4, 5⟩, receiveLimit,
        [(5, { algorithm := some algoFixedWindow, limitWindowSecs := some 1 })]⟩,
      ⟨⟨"a", 1, 2⟩, {}, [(2, receiveLimit)]⟩] }

end Limiter

open Limiter in
/-- Both ranges of a file are those of their entries, policies and overrides included. -/
theorem validateRanges_accepts_disjoint_two :
    (∀ entry ∈ pairedFile.ipRanges, entry.Named) ∧
      [(⟨"b", 4, 5⟩ : IpRange), ⟨"a", 1, 2⟩].Pairwise IpRange.Apart ∧
      List.Forall₂ (IpRangeEntry.Attached false) pairedFile.ipRanges paired.ranges := by
  have accepted : validateRanges pairedFile.ipRanges = .ok [⟨"b", 4, 5⟩, ⟨"a", 1, 2⟩] := rfl
  have parsed : pairedFile.parse (fun _ => .error "") = .ok paired := rfl
  obtain ⟨-, named, -, -, apart⟩ := (validateRanges_accepts_disjoint.1 _ _).mp accepted
  exact ⟨named, apart, validateRanges_accepts_disjoint.2 _ _ _ parsed⟩

/-- Neighbours in the file need not be neighbours in the address space. -/
example : (validateRanges [⟨"c", "10.0.0.9 - 10.0.0.9", none, []⟩,
    ⟨"a", "10.0.0.1-10.0.0.4", none, []⟩, ⟨"b", "10.0.0.5-10.0.0.8", none, []⟩]).toOption.map
      (·.map IpRange.name) = some ["c", "a", "b"] := by rfl

end VmWatcher

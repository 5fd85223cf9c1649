import VmWatcher.Core.Proofs.Accepted
import Mathlib.Algebra.GroupWithZero.Nat
import Mathlib.Data.List.TakeWhile

/-!
# What the unit parsers accept

A value with a unit is a run of digits and a unit, with white space around either. The
parsers accept exactly these strings, and read each with its own unit.
-/

namespace VmWatcher

open ExceptRules

/-! ### Characters -/

theorem toNat_ofNat {n : ℕ} (h : n < 0xD800) : (Char.ofNat n).toNat = n := by
  have valid : n.isValidChar := Or.inl h
  rw [Char.ofNat, dif_pos valid]
  rfl

/-- Of the ASCII characters, white space comes before the digits and the letters. -/
theorem isWhitespace_of_printing {c : Char} (h : 33 ≤ c.toNat) (h' : c.toNat ≤ 126) :
    isWhitespace c = false := by
  simp [isWhitespace]
  omega

theorem toAsciiLowercase_isWhitespace (c : Char) :
    isWhitespace (toAsciiLowercase c) = isWhitespace c := by
  unfold toAsciiLowercase
  split
  · next upper =>
    simp only [Bool.and_eq_true, decide_eq_true_eq] at upper
    have lower : (Char.ofNat (c.toNat + 32)).toNat = c.toNat + 32 := toNat_ofNat (by omega)
    rw [isWhitespace_of_printing (by omega) (by omega), isWhitespace_of_printing (by omega) (by omega)]
  · rfl

theorem toAsciiLowercase_isAsciiDigit (c : Char) :
    isAsciiDigit (toAsciiLowercase c) = isAsciiDigit c := by
  unfold toAsciiLowercase
  split
  · next upper =>
    simp only [Bool.and_eq_true, decide_eq_true_eq] at upper
    have lower : (Char.ofNat (c.toNat + 32)).toNat = c.toNat + 32 := toNat_ofNat (by omega)
    have notDigit : ∀ d : Char, 65 ≤ d.toNat → isAsciiDigit d = false := by
      intro d hd
      simp only [isAsciiDigit, Bool.and_eq_false_iff, decide_eq_false_iff_not]
      omega
    rw [notDigit _ (by omega), notDigit _ upper.1]
  · rfl

theorem toAsciiLowercase_eq_b {c : Char} : toAsciiLowercase c = 'b' ↔ c = 'b' ∨ c = 'B' := by
  unfold toAsciiLowercase
  split
  · next upper =>
    simp only [Bool.and_eq_true, decide_eq_true_eq] at upper
    have lower : (Char.ofNat (c.toNat + 32)).toNat = c.toNat + 32 := toNat_ofNat (by omega)
    rw [← Char.toNat_inj, lower, ← Char.toNat_inj, ← Char.toNat_inj]
    have b : 'b'.toNat = 98 := rfl
    have B : 'B'.toNat = 66 := rfl
    omega
  · next upper =>
    constructor
    · exact Or.inl
    · intro h
      rcases h with rfl | rfl
      · rfl
      · exact absurd rfl upper

theorem isWhitespace_of_digit {c : Char} (h : isAsciiDigit c) : isWhitespace c = false := by
  simp only [isAsciiDigit, Bool.and_eq_true, decide_eq_true_eq] at h
  exact isWhitespace_of_printing (by omega) (by omega)

/-! ### Trimming -/

/-- Nothing but white space. -/
def Blank (s : List Char) : Prop := ∀ c ∈ s, isWhitespace c = true

/-- No white space at either end. -/
structure Trimmed (s : List Char) : Prop where
  head : ∀ c, s.head? = some c → isWhitespace c = false
  last : ∀ c, s.getLast? = some c → isWhitespace c = false

theorem dropWhile_blank {lead s : List Char} (hlead : Blank lead)
    (head : ∀ c, s.head? = some c → isWhitespace c = false) :
    (lead ++ s).dropWhile isWhitespace = s := by
  rw [List.dropWhile_append_of_pos hlead]
  cases s with
  | nil => rfl
  | cons c s => exact List.dropWhile_cons_of_neg (by simp [head c rfl])

theorem trimEnd_blank {s trail : List Char} (htrail : Blank trail)
    (last : ∀ c, s.getLast? = some c → isWhitespace c = false) : trimEnd (s ++ trail) = s := by
  unfold trimEnd trimEndMatches
  rw [List.reverse_append, dropWhile_blank, List.reverse_reverse]
  · exact fun c hc => htrail c (List.mem_reverse.mp hc)
  · intro c hc
    rw [List.head?_reverse] at hc
    exact last c hc

/-- `trim` takes the white space off both ends. -/
theorem trim_eq {lead s trail : List Char} (hlead : Blank lead) (htrail : Blank trail)
    (h : Trimmed s) : trim (lead ++ (s ++ trail)) = s := by
  unfold trim
  by_cases empty : s = []
  · subst empty
    have blank : (lead ++ ([] ++ trail)).dropWhile isWhitespace = [] := by
      rw [List.dropWhile_eq_nil_iff]
      intro c hc
      rcases List.mem_append.mp hc with hc | hc
      · exact hlead c hc
      · exact htrail c hc
    rw [blank]
    rfl
  · rw [dropWhile_blank hlead]
    · exact trimEnd_blank htrail h.last
    · intro c hc
      rw [List.head?_append_of_ne_nil _ empty] at hc
      exact h.head c hc

theorem head?_dropWhile {p : Char → Bool} {s : List Char} {c : Char}
    (h : (s.dropWhile p).head? = some c) : p c = false := by
  have first := List.head?_dropWhile_not p s
  rw [h] at first
  exact first

theorem exists_trim (s : List Char) :
    ∃ lead trail, s = lead ++ (trim s ++ trail) ∧ Blank lead ∧ Blank trail ∧ Trimmed (trim s) := by
  set rest := s.dropWhile isWhitespace with hrest
  have cut : rest = trim s ++ (rest.reverse.takeWhile isWhitespace).reverse := by
    rw [trim, trimEnd, trimEndMatches, ← hrest, ← List.reverse_append,
      List.takeWhile_append_dropWhile, List.reverse_reverse]
  refine ⟨s.takeWhile isWhitespace, (rest.reverse.takeWhile isWhitespace).reverse, ?_, ?_, ?_, ?_, ?_⟩
  · rw [← cut, hrest, List.takeWhile_append_dropWhile]
  · exact fun c hc => List.mem_takeWhile_imp hc
  · exact fun c hc => List.mem_takeWhile_imp (List.mem_reverse.mp hc)
  · intro c hc
    refine head?_dropWhile (s := s) ?_
    rw [← hrest, cut, List.head?_append, hc]
    rfl
  · intro c hc
    rw [trim, trimEnd, trimEndMatches, List.getLast?_reverse] at hc
    exact head?_dropWhile hc

/-! ### The parts of a value -/

/-- A word: not empty, no white space and no digit. -/
structure Word (unit : List Char) : Prop where
  ne_nil : unit ≠ []
  solid : ∀ c ∈ unit, isWhitespace c = false ∧ isAsciiDigit c = false

/-- The text is a run of digits and a unit, with white space around either. -/
structure Parts (s lead digits gap unit trail : List Char) : Prop where
  whole : s = lead ++ ((digits ++ (gap ++ unit)) ++ trail)
  lead : Blank lead
  gap : Blank gap
  trail : Blank trail
  digits_ne_nil : digits ≠ []
  digits : ∀ c ∈ digits, isAsciiDigit c = true

variable {s lead digits gap unit trail : List Char} {raw what : String}

theorem Word.trimmed (h : Word unit) : Trimmed unit where
  head c hc := (h.solid c (List.mem_of_head? hc)).1
  last c hc := (h.solid c (List.mem_of_getLast? hc)).1

theorem isAsciiDigit_of_blank {c : Char} (h : isWhitespace c = true) : isAsciiDigit c = false := by
  rw [Bool.eq_false_iff]
  intro digit
  rw [isWhitespace_of_digit digit] at h
  cases h

namespace Parts

/-- After the digits no digit follows. -/
theorem rest_head (h : Parts s lead digits gap unit trail) (word : Word unit) {c : Char}
    (hc : (gap ++ unit).head? = some c) : isAsciiDigit c = false := by
  cases gap with
  | nil => exact (word.solid c (List.mem_of_head? hc)).2
  | cons d gap =>
    obtain rfl := Option.some.inj hc
    exact isAsciiDigit_of_blank (h.gap d List.mem_cons_self)

theorem trim_whole (h : Parts s lead digits gap unit trail) (word : Word unit) :
    trim s = digits ++ (gap ++ unit) := by
  rw [h.whole]
  refine trim_eq h.lead h.trail ⟨?_, ?_⟩
  · intro c hc
    rw [List.head?_append_of_ne_nil _ h.digits_ne_nil] at hc
    exact isWhitespace_of_digit (h.digits c (List.mem_of_head? hc))
  · intro c hc
    rw [← List.append_assoc, List.getLast?_append_of_ne_nil _ word.ne_nil] at hc
    exact word.trimmed.last c hc

theorem takeWhile_digits (h : Parts s lead digits gap unit trail) (word : Word unit) :
    (trim s).takeWhile isAsciiDigit = digits := by
  rw [h.trim_whole word, List.takeWhile_append_of_pos h.digits]
  cases hrest : gap ++ unit with
  | nil => simp
  | cons c rest => simp [h.rest_head word (c := c) (by rw [hrest]; rfl)]

theorem dropWhile_digits (h : Parts s lead digits gap unit trail) (word : Word unit) :
    (trim s).dropWhile isAsciiDigit = gap ++ unit := by
  rw [h.trim_whole word, List.dropWhile_append_of_pos h.digits]
  cases hrest : gap ++ unit with
  | nil => rfl
  | cons c rest => simp [h.rest_head word (c := c) (by rw [hrest]; rfl)]

theorem trim_rest (h : Parts s lead digits gap unit trail) (word : Word unit) :
    trim (gap ++ unit) = unit := by
  have plain : trim (gap ++ (unit ++ [])) = unit := trim_eq h.gap (by simp [Blank]) word.trimmed
  rwa [List.append_nil] at plain

theorem trimEnd_whole (h : Parts s lead digits gap unit trail) (ne_nil : unit ≠ [])
    (trimmed : Trimmed unit) : trimEnd s = lead ++ (digits ++ (gap ++ unit)) := by
  rw [h.whole, ← List.append_assoc]
  apply trimEnd_blank h.trail
  intro c hc
  rw [← List.append_assoc, ← List.append_assoc, List.getLast?_append_of_ne_nil _ ne_nil] at hc
  exact trimmed.last c hc

end Parts

/-! ### Splitting off the unit -/

theorem parseUnsigned_digits {largest : ℕ} (ne_nil : digits ≠ [])
    (h : ∀ c ∈ digits, isAsciiDigit c = true) :
    parseUnsigned largest digits =
      if decimal digits ≤ largest then some (decimal digits) else none := by
  have unsigned : digits.head? ≠ some '+' := by
    intro hplus
    have plus := h '+' (List.mem_of_head? hplus)
    revert plus
    decide
  have all : digits.all isAsciiDigit = true := List.all_eq_true.mpr h
  simp [parseUnsigned, unsigned, ne_nil, all]

theorem splitUnit_of_parts (h : Parts raw.toList lead digits gap unit trail) (word : Word unit)
    (fits : decimal digits ≤ u64Max) :
    splitUnit raw what = .ok (decimal digits, String.ofList (unit.map toAsciiLowercase)) := by
  have nonempty : trim raw.toList ≠ [] := by
    rw [h.trim_whole word]
    exact fun hnil => h.digits_ne_nil (List.append_eq_nil_iff.mp hnil).1
  unfold splitUnit
  simp only [h.takeWhile_digits word, h.dropWhile_digits word, h.trim_rest word,
    parseUnsigned_digits h.digits_ne_nil h.digits, fits, if_true]
  simp [nonempty, h.digits_ne_nil, word.ne_nil]

theorem parts_of_splitUnit {n : ℕ} {u : String} (h : splitUnit raw what = .ok (n, u)) :
    ∃ lead digits gap unit trail, Parts raw.toList lead digits gap unit trail ∧
      (unit ≠ [] ∧ Trimmed unit) ∧ n = decimal digits ∧
      u = String.ofList (unit.map toAsciiLowercase) := by
  unfold splitUnit at h
  dsimp only at h
  set digits := (trim raw.toList).takeWhile isAsciiDigit with hdigits
  set rest := (trim raw.toList).dropWhile isAsciiDigit with hrest
  have alldigits : ∀ c ∈ digits, isAsciiDigit c = true := fun c hc => List.mem_takeWhile_imp hc
  by_cases empty : (trim raw.toList).isEmpty
  · simp [empty] at h
  · by_cases missing : digits.isEmpty
    · simp [empty, missing] at h
    · have ne_nil : digits ≠ [] := by simpa using missing
      rw [if_neg empty, if_neg missing, parseUnsigned_digits ne_nil alldigits] at h
      by_cases fits : decimal digits ≤ u64Max
      · rw [if_pos fits] at h
        dsimp only at h
        by_cases unitless : ((trim rest).map toAsciiLowercase).isEmpty
        · simp [unitless] at h
        · rw [if_neg unitless] at h
          obtain ⟨rfl, rfl⟩ := Prod.mk.inj (Except.ok.inj h)
          obtain ⟨lead, trail, whole, hlead, htrail, -⟩ := exists_trim raw.toList
          obtain ⟨gap, trail', wholeRest, hgap, htrail', trimmed⟩ := exists_trim rest
          have some_unit : trim rest ≠ [] := fun hnil => unitless (by simp [hnil])
          refine ⟨lead, digits, gap, trim rest, trail' ++ trail, ⟨?_, hlead, hgap, ?_, ne_nil,
            alldigits⟩, ⟨some_unit, trimmed⟩, rfl, rfl⟩
          · have cut : trim raw.toList = digits ++ rest := List.takeWhile_append_dropWhile.symm
            rw [whole, cut]
            nth_rewrite 1 [wholeRest]
            simp
          · intro c hc
            rcases List.mem_append.mp hc with hc | hc
            · exact htrail' c hc
            · exact htrail c hc
      · rw [if_neg fits] at h
        cases h

/-! ### The grammar -/

/-- The name in any ASCII letter case. -/
def SpelledAs (name : String) (unit : List Char) : Prop := unit.map toAsciiLowercase = name.toList

/-- A unit of the table, in any letter case. -/
def UnitOf (table : List (String × ℕ)) (unit : List Char) (mult : ℕ) : Prop :=
  ∃ name, (name, mult) ∈ table ∧ SpelledAs name unit

def durationUnits : List (String × ℕ) :=
  [("s", 1), ("sec", 1), ("secs", 1), ("m", 60), ("min", 60), ("mins", 60), ("h", 3600),
    ("hr", 3600), ("hour", 3600), ("hours", 3600)]

def byteUnits : List (String × ℕ) :=
  [("b", 1), ("kb", 1000), ("mb", 1000000), ("gb", 1000000000), ("kib", 1024),
    ("mib", 1048576), ("gib", 1073741824)]

def bitUnits : List (String × ℕ) :=
  [("bit/s", 1), ("kbit/s", 1000), ("mbit/s", 1000000), ("gbit/s", 1000000000)]

/-- The scales of the `…bps` forms. -/
def rateScales : List (String × ℕ) := [("", 1), ("k", 1000), ("m", 1000000), ("g", 1000000000)]

/-- A unit of a rate: the `b` of the `…bps` forms is in lower case. -/
def RateUnit (unit : List Char) (mult : ℕ) : Prop :=
  UnitOf bitUnits unit mult ∨
    ∃ scale ps, unit = scale ++ 'b' :: ps ∧ SpelledAs "ps" ps ∧ UnitOf rateScales scale mult

/-- The text spells the value: a number and a unit, with white space around either, whose
product is not zero and fits into 64 bits. -/
def Denotes (unitMeans : List Char → ℕ → Prop) (s : List Char) (v : ℕ) : Prop :=
  ∃ lead digits gap unit trail mult, Parts s lead digits gap unit trail ∧
    unitMeans unit mult ∧ v = decimal digits * mult ∧ v ≠ 0 ∧ v < 2 ^ 64

/-- The parser reads every text that spells a value as that value, and fails on all
others. -/
def Accepts (parse : String → Except String ℕ) (unitMeans : List Char → ℕ → Prop) : Prop :=
  ∀ raw, (∀ v, parse raw = .ok v ↔ Denotes unitMeans raw.toList v) ∧
    ((∀ v, ¬ Denotes unitMeans raw.toList v) → ∃ e, parse raw = .error e)

theorem accepts_of_iff {parse : String → Except String ℕ} {unitMeans : List Char → ℕ → Prop}
    (h : ∀ raw v, parse raw = .ok v ↔ Denotes unitMeans raw.toList v) : Accepts parse unitMeans := by
  intro raw
  refine ⟨h raw, ?_⟩
  intro unread
  cases hparse : parse raw with
  | ok v => exact absurd ((h raw v).mp hparse) (unread v)
  | error e => exact ⟨e, rfl⟩

theorem nonzero_mul_eq_ok {n mult v : ℕ} :
    nonzero (u64CheckedMul n mult) raw what = .ok v ↔ v = n * mult ∧ v ≠ 0 ∧ v < 2 ^ 64 := by
  have limit : ∀ m, m ≤ u64Max ↔ m < 2 ^ 64 := fun m => by
    unfold u64Max
    omega
  constructor
  · intro h
    obtain ⟨hmul, hpos⟩ := nonzero_eq_ok h
    have fits := u64CheckedMul_le hmul
    unfold u64CheckedMul at hmul
    split at hmul
    · exact ⟨(Option.some.inj hmul).symm, by omega, (limit v).mp fits⟩
    · cases hmul
  · intro given
    obtain ⟨rfl, hne, hfits⟩ := given
    rw [u64CheckedMul, if_pos ((limit _).mpr hfits)]
    simp [nonzero, hne]

theorem word_of_map (h : Word (unit.map toAsciiLowercase)) : Word unit where
  ne_nil hnil := h.ne_nil (by simp [hnil])
  solid c hc := by
    have lower := h.solid _ (List.mem_map_of_mem hc)
    rwa [toAsciiLowercase_isWhitespace, toAsciiLowercase_isAsciiDigit] at lower

/-- A parser that looks the unit up in a table of words reads what the table means. -/
theorem reads_iff_lookup {unitMeans : List Char → ℕ → Prop}
    (words : ∀ unit mult, unitMeans unit mult → Word unit ∧ 1 ≤ mult) {v : ℕ} :
    Denotes unitMeans raw.toList v ↔
      ∃ lead digits gap unit trail mult, Parts raw.toList lead digits gap unit trail ∧
        splitUnit raw what = .ok (decimal digits, String.ofList (unit.map toAsciiLowercase)) ∧
        unitMeans unit mult ∧ nonzero (u64CheckedMul (decimal digits) mult) raw what = .ok v := by
  constructor
  · intro h
    obtain ⟨lead, digits, gap, unit, trail, mult, parts, means, value⟩ := h
    obtain ⟨word, scale⟩ := words unit mult means
    have fits : decimal digits ≤ u64Max := by
      obtain ⟨rfl, -, hfits⟩ := value
      have le : decimal digits ≤ decimal digits * mult := Nat.le_mul_of_pos_right _ scale
      unfold u64Max
      omega
    exact ⟨lead, digits, gap, unit, trail, mult, parts, splitUnit_of_parts parts word fits, means,
      nonzero_mul_eq_ok.mpr value⟩
  · intro h
    obtain ⟨lead, digits, gap, unit, trail, mult, parts, -, means, value⟩ := h
    exact ⟨lead, digits, gap, unit, trail, mult, parts, means, nonzero_mul_eq_ok.mp value⟩

/-- Every unit of the table is a word and has a multiplier. -/
def WordTable (table : List (String × ℕ)) : Prop :=
  ∀ e ∈ table, (e.1.toList ≠ [] ∧
    e.1.toList.all fun c => !isWhitespace c && !isAsciiDigit c) ∧ 1 ≤ e.2

instance (table : List (String × ℕ)) : Decidable (WordTable table) :=
  inferInstanceAs (Decidable (∀ e ∈ table, (e.1.toList ≠ [] ∧
    e.1.toList.all fun c => !isWhitespace c && !isAsciiDigit c) ∧ 1 ≤ e.2))

theorem WordTable.words {table : List (String × ℕ)} (h : WordTable table) :
    ∀ unit mult, UnitOf table unit mult → Word unit ∧ 1 ≤ mult := by
  intro unit mult given
  obtain ⟨name, hmem, spelled⟩ := given
  obtain ⟨⟨ne_nil, solid⟩, scale⟩ := h _ hmem
  refine ⟨word_of_map ?_, scale⟩
  rw [spelled]
  exact ⟨ne_nil, by simpa using solid⟩

theorem wordTable_durationUnits : WordTable durationUnits := by decide

theorem wordTable_byteUnits : WordTable byteUnits := by decide

theorem wordTable_bitUnits : WordTable bitUnits := by decide

theorem wordTable_rateScales : ∀ e ∈ rateScales, WordTable [(e.1 ++ "bps", e.2)] := by decide

/-- A parser that only looks its unit up accepts the grammar of its table. -/
theorem parseUnit_accepts {table : List (String × ℕ)} (words : WordTable table)
    {lookup : String → Option ℕ} {expected : String}
    (known : ∀ name mult, lookup name = some mult ↔ (name, mult) ∈ table) :
    Accepts (parseUnit what lookup expected) (UnitOf table) := by
  apply accepts_of_iff
  intro raw v
  rw [parseUnit_eq_ok, reads_iff_lookup words.words]
  constructor
  · intro given
    obtain ⟨n, unit, mult, hsplit, hunit, value⟩ := given
    obtain ⟨lead, digits, gap, unit', trail, parts, -, rfl, rfl⟩ := parts_of_splitUnit hsplit
    exact ⟨lead, digits, gap, unit', trail, mult, parts, hsplit,
      ⟨_, (known _ _).mp hunit, String.toList_ofList.symm⟩, value⟩
  · intro given
    obtain ⟨lead, digits, gap, unit, trail, mult, parts, hsplit, ⟨name, hmem, spelled⟩, value⟩ := given
    refine ⟨_, _, mult, hsplit, ?_, value⟩
    rw [spelled, String.ofList_toList]
    exact (known _ _).mpr hmem

theorem durationUnit_eq_some_iff (name : String) (mult : ℕ) :
    durationUnit name = some mult ↔ (name, mult) ∈ durationUnits := by
  constructor
  · intro h
    unfold durationUnit at h
    split at h <;> cases h <;> simp [durationUnits]
  · intro h
    simp only [durationUnits, List.mem_cons, Prod.mk.injEq, List.not_mem_nil, or_false] at h
    rcases h with ⟨rfl, rfl⟩ | ⟨rfl, rfl⟩ | ⟨rfl, rfl⟩ | ⟨rfl, rfl⟩ | ⟨rfl, rfl⟩ | ⟨rfl, rfl⟩ |
      ⟨rfl, rfl⟩ | ⟨rfl, rfl⟩ | ⟨rfl, rfl⟩ | ⟨rfl, rfl⟩ <;> rfl

theorem byteUnit_eq_some_iff (name : String) (mult : ℕ) :
    byteUnit name = some mult ↔ (name, mult) ∈ byteUnits := by
  constructor
  · intro h
    unfold byteUnit at h
    split at h <;> cases h <;> simp [byteUnits]
  · intro h
    simp only [byteUnits, List.mem_cons, Prod.mk.injEq, List.not_mem_nil, or_false] at h
    rcases h with ⟨rfl, rfl⟩ | ⟨rfl, rfl⟩ | ⟨rfl, rfl⟩ | ⟨rfl, rfl⟩ | ⟨rfl, rfl⟩ | ⟨rfl, rfl⟩ |
      ⟨rfl, rfl⟩ <;> rfl

theorem parseDurationSecs_accepts : Accepts parseDurationSecs (UnitOf durationUnits) :=
  parseUnit_accepts wordTable_durationUnits durationUnit_eq_some_iff

theorem parseBytes_accepts : Accepts parseBytes (UnitOf byteUnits) :=
  parseUnit_accepts wordTable_byteUnits byteUnit_eq_some_iff

/-! ### The lower-case `b` -/

/-- The unit ends in `bps` in any letter case. -/
def EndsInBps (unit : List Char) : Prop :=
  (unit.map toAsciiLowercase).reverse.take 3 = "spb".toList

/-- The third character from the end that `parse_rate_bps` looks at is the unit's own. -/
theorem trimEnd_third (h : Parts raw.toList lead digits gap unit trail) (trimmed : Trimmed unit)
    (bps : EndsInBps unit) : (trimEnd raw.toList).reverse[2]? = unit.reverse[2]? := by
  have long : 3 ≤ unit.length := by
    have len := congrArg List.length bps
    simp at len
    omega
  have ne_nil : unit ≠ [] := by
    intro same
    subst same
    simp at long
  rw [h.trimEnd_whole ne_nil trimmed, ← List.append_assoc, ← List.append_assoc, List.reverse_append,
    List.getElem?_append_left]
  rw [List.length_reverse]
  exact long

theorem endsInBps_iff : EndsInBps unit ↔ ∃ scale b ps, unit = scale ++ b :: ps ∧
    toAsciiLowercase b = 'b' ∧ SpelledAs "ps" ps := by
  constructor
  · intro h
    have cut : unit.map toAsciiLowercase =
        ((unit.map toAsciiLowercase).reverse.drop 3).reverse ++ "bps".toList := by
      have whole := List.take_append_drop 3 (unit.map toAsciiLowercase).reverse
      rw [h] at whole
      have flipped := congrArg List.reverse whole
      rw [List.reverse_append, List.reverse_reverse] at flipped
      exact flipped.symm
    obtain ⟨scale, tail, rfl, -, htail⟩ := List.map_eq_append_iff.mp cut
    obtain ⟨b, ps, rfl, hb, hps⟩ := List.map_eq_cons_iff.mp htail
    exact ⟨scale, b, ps, rfl, hb, hps⟩
  · intro given
    obtain ⟨scale, b, ps, rfl, hb, hps⟩ := given
    unfold EndsInBps
    rw [List.map_append, List.map_cons, hb, hps]
    simp

/-- The `b` of a unit that ends in `bps`. -/
theorem bps_third {scale ps : List Char} {b : Char} (hps : SpelledAs "ps" ps) :
    (scale ++ b :: ps).reverse[2]? = some b := by
  have two : ps.length = 2 := by
    have len := congrArg List.length hps
    simpa using len
  obtain ⟨p, q, rfl⟩ := List.length_eq_two.mp two
  simp

theorem rateUnit_forms {name : String} {mult : ℕ} (h : rateUnit name = some mult) :
    (name, mult) ∈ bitUnits ∨ ∃ scale, (scale, mult) ∈ rateScales ∧ name = scale ++ "bps" := by
  unfold rateUnit at h
  split at h
  · cases h
    exact Or.inr ⟨"", by simp [rateScales], rfl⟩
  · cases h
    exact Or.inl (by simp [bitUnits])
  · cases h
    exact Or.inr ⟨"k", by simp [rateScales], rfl⟩
  · cases h
    exact Or.inl (by simp [bitUnits])
  · cases h
    exact Or.inr ⟨"m", by simp [rateScales], rfl⟩
  · cases h
    exact Or.inl (by simp [bitUnits])
  · cases h
    exact Or.inr ⟨"g", by simp [rateScales], rfl⟩
  · cases h
    exact Or.inl (by simp [bitUnits])
  · cases h

theorem rateUnit_bit {name : String} {mult : ℕ} (h : (name, mult) ∈ bitUnits) :
    rateUnit name = some mult ∧ name.toList.reverse.take 3 = "s/t".toList := by
  simp only [bitUnits, List.mem_cons, Prod.mk.injEq, List.not_mem_nil, or_false] at h
  rcases h with ⟨rfl, rfl⟩ | ⟨rfl, rfl⟩ | ⟨rfl, rfl⟩ | ⟨rfl, rfl⟩ <;> exact ⟨rfl, rfl⟩

theorem rateUnit_scale {scale : String} {mult : ℕ} (h : (scale, mult) ∈ rateScales) :
    rateUnit (scale ++ "bps") = some mult := by
  simp only [rateScales, List.mem_cons, Prod.mk.injEq, List.not_mem_nil, or_false] at h
  rcases h with ⟨rfl, rfl⟩ | ⟨rfl, rfl⟩ | ⟨rfl, rfl⟩ | ⟨rfl, rfl⟩ <;> rfl

/-- The table of `parse_rate_bps` and its test of the `b` together read the units of the
grammar. -/
theorem rateUnit_iff {mult : ℕ} :
    RateUnit unit mult ↔ rateUnit (String.ofList (unit.map toAsciiLowercase)) = some mult ∧
      ¬ (EndsInBps unit ∧ unit.reverse[2]? = some 'B') := by
  constructor
  · intro h
    rcases h with ⟨name, hmem, spelled⟩ | ⟨scale, ps, rfl, hps, name, hmem, spelled⟩
    · obtain ⟨known, ending⟩ := rateUnit_bit hmem
      rw [spelled, String.ofList_toList]
      refine ⟨known, ?_⟩
      intro upper
      have bps := upper.1
      unfold EndsInBps at bps
      rw [spelled, ending] at bps
      exact absurd bps (by decide)
    · constructor
      · have whole : (scale ++ 'b' :: ps).map toAsciiLowercase = (name ++ "bps").toList := by
          rw [List.map_append, List.map_cons, spelled, hps, String.toList_append]
          rfl
        rw [whole, String.ofList_toList]
        exact rateUnit_scale hmem
      · rw [bps_third hps]
        intro h
        obtain ⟨-, upper⟩ := h
        exact absurd (Option.some.inj upper) (by decide)
  · intro h
    obtain ⟨known, lower⟩ := h
    rcases rateUnit_forms known with hmem | ⟨scale, hmem, hname⟩
    · exact Or.inl ⟨_, hmem, String.toList_ofList.symm⟩
    · have spelled : unit.map toAsciiLowercase = scale.toList ++ "bps".toList := by
        rw [← String.toList_append, ← hname, String.toList_ofList]
      obtain ⟨sc, tail, rfl, hscale, htail⟩ := List.map_eq_append_iff.mp spelled
      obtain ⟨b, ps, rfl, hb, hps⟩ := List.map_eq_cons_iff.mp htail
      have bps : EndsInBps (sc ++ b :: ps) := endsInBps_iff.mpr ⟨sc, b, ps, rfl, hb, hps⟩
      rw [bps_third hps] at lower
      rcases toAsciiLowercase_eq_b.mp hb with rfl | rfl
      · exact Or.inr ⟨sc, ps, rfl, hps, scale, hmem, hscale⟩
      · exact absurd ⟨bps, rfl⟩ lower

theorem rateUnit_word {mult : ℕ}
    (h : rateUnit (String.ofList (unit.map toAsciiLowercase)) = some mult) :
    Word unit ∧ 1 ≤ mult := by
  rcases rateUnit_forms h with hmem | ⟨scale, hmem, hname⟩
  · exact wordTable_bitUnits.words unit mult ⟨_, hmem, String.toList_ofList.symm⟩
  · refine (wordTable_rateScales _ hmem).words unit mult ⟨_, ?_, String.toList_ofList.symm⟩
    rw [hname]
    exact List.mem_singleton_self _

/-- For a unit of the table the test of `parse_rate_bps` is about the unit's own `b`. -/
theorem upperB_iff (parts : Parts raw.toList lead digits gap unit trail) (word : Word unit) :
    ((unit.map toAsciiLowercase).reverse.take 3 = "spb".toList ∧
        (trimEnd raw.toList).reverse[2]? = some 'B') ↔
      EndsInBps unit ∧ unit.reverse[2]? = some 'B' := by
  apply and_congr_right
  intro bps
  rw [trimEnd_third parts word.trimmed bps]

theorem parseRateBps_accepts : Accepts parseRateBps RateUnit := by
  apply accepts_of_iff
  intro raw v
  rw [reads_iff_lookup fun unit mult means => rateUnit_word (rateUnit_iff.mp means).1]
  simp only [parseRateBps, bind_eq_ok]
  constructor
  · intro given
    obtain ⟨⟨n, name⟩, hsplit, h⟩ := given
    obtain ⟨lead, digits, gap, unit, trail, parts, -, rfl, rfl⟩ := parts_of_splitUnit hsplit
    rw [String.toList_ofList] at h
    by_cases upper : (unit.map toAsciiLowercase).reverse.take 3 = "spb".toList ∧
        (trimEnd raw.toList).reverse[2]? = some 'B'
    · rw [if_pos upper] at h
      cases h
    · rw [if_neg upper] at h
      cases hunit : rateUnit (String.ofList (unit.map toAsciiLowercase)) with
      | none => simp [hunit] at h
      | some mult =>
        simp only [hunit] at h
        rw [upperB_iff parts (rateUnit_word hunit).1] at upper
        exact ⟨lead, digits, gap, unit, trail, mult, parts, hsplit,
          rateUnit_iff.mpr ⟨hunit, upper⟩, h⟩
  · intro given
    obtain ⟨lead, digits, gap, unit, trail, mult, parts, hsplit, means, value⟩ := given
    obtain ⟨known, lower⟩ := rateUnit_iff.mp means
    refine ⟨_, hsplit, ?_⟩
    rw [String.toList_ofList, if_neg]
    · simp only [known]
      exact value
    · rw [upperB_iff parts (rateUnit_word known).1]
      exact lower

/-! ### All three parsers -/

/-- Whatever the unit of a rate is, the character that is tested when it ends in `bps` is
the `b` of that ending. -/
theorem tested_b_own {n : ℕ} {name : String} (h : splitUnit raw "bit rate" = .ok (n, name)) :
    ∃ lead digits gap unit trail, Parts raw.toList lead digits gap unit trail ∧
      name = String.ofList (unit.map toAsciiLowercase) ∧
      (EndsInBps unit → ∃ scale b ps, unit = scale ++ b :: ps ∧ toAsciiLowercase b = 'b' ∧
        SpelledAs "ps" ps ∧ (trimEnd raw.toList).reverse[2]? = some b) := by
  obtain ⟨lead, digits, gap, unit, trail, parts, ⟨-, trimmed⟩, -, rfl⟩ := parts_of_splitUnit h
  refine ⟨lead, digits, gap, unit, trail, parts, rfl, ?_⟩
  intro bps
  have third := trimEnd_third parts trimmed bps
  obtain ⟨scale, b, ps, rfl, hb, hps⟩ := endsInBps_iff.mp bps
  exact ⟨scale, b, ps, rfl, hb, hps, third.trans (bps_third hps)⟩

/-- The unit parsers accept exactly their grammar, and the test for the lower-case `b` of
a rate always looks at its unit. -/
theorem unit_parsers_accept_grammar :
    Accepts parseRateBps RateUnit ∧ Accepts parseDurationSecs (UnitOf durationUnits) ∧
      Accepts parseBytes (UnitOf byteUnits) ∧
      ∀ raw n name, splitUnit raw "bit rate" = .ok (n, name) →
        ∃ lead digits gap unit trail, Parts raw.toList lead digits gap unit trail ∧
          name = String.ofList (unit.map toAsciiLowercase) ∧
          (EndsInBps unit → ∃ scale b ps, unit = scale ++ b :: ps ∧ toAsciiLowercase b = 'b' ∧
            SpelledAs "ps" ps ∧ (trimEnd raw.toList).reverse[2]? = some b) :=
  ⟨parseRateBps_accepts, parseDurationSecs_accepts, parseBytes_accepts,
    fun _ _ _ h => tested_b_own h⟩

end VmWatcher

import Mathlib.Data.List.Forall2
import Mathlib.Data.List.TakeWhile

/-!
# The Prometheus text exposition format

A payload is a sequence of lines that end in a line feed. A line that is not blank and no
comment is a sample: a metric name, labels in braces, a value and a timestamp, with blanks
and tabs between them as one likes. In a label value a backslash escapes a backslash, a
double quote or, before an `n`, a line feed. Of the numbers the format has, only integers
are read.

Reading back what `encode` writes gives the samples again (`decode_encode`).
-/

namespace VmWatcher.Exposition

/-- A label: its name and its value. -/
abbrev Label := List Char × List Char

structure Sample where
  name : List Char
  labels : List Label
  value : ℕ
  timestamp : Option ℤ
  deriving DecidableEq, Repr

/-! ### Reading -/

def isBlank (c : Char) : Bool := c = ' ' || c = '\t'

def nameStart (c : Char) : Bool := c.isAlpha || c = '_' || c = ':'

def nameRest (c : Char) : Bool := nameStart c || c.isDigit

def labelStart (c : Char) : Bool := c.isAlpha || c = '_'

def labelRest (c : Char) : Bool := labelStart c || c.isDigit

def skipBlanks (s : List Char) : List Char := s.dropWhile isBlank

/-- The given character, and what follows it. -/
def expect (c : Char) : List Char → Option (List Char)
  | [] => none
  | d :: s => if d = c then some s else none

/-- The longest name at the start. -/
def readName (start rest : Char → Bool) : List Char → Option (List Char × List Char)
  | [] => none
  | c :: s => if start c then some (c :: s.takeWhile rest, s.dropWhile rest) else none

/-- What a character means after a backslash. -/
def unescape (c : Char) : Option Char :=
  if c = '\\' then some '\\'
  else if c = '"' then some '"'
  else if c = 'n' then some '\n'
  else none

/-- A label value after its opening quote, and what follows the closing one. -/
def readQuoted : List Char → Option (List Char × List Char)
  | [] => none
  | [c] => if c = '"' then some ([], []) else none
  | c :: d :: s =>
    if c = '"' then some ([], d :: s)
    else if c = '\\' then do
      let e ← unescape d
      let (value, s) ← readQuoted s
      return (e :: value, s)
    else if c = '\n' then none
    else do
      let (value, s) ← readQuoted (d :: s)
      return (c :: value, s)

/-- One label, and what follows it. -/
def readLabel (s : List Char) : Option (Label × List Char) := do
  let (name, s) ← readName labelStart labelRest (skipBlanks s)
  let s ← expect '=' (skipBlanks s)
  let s ← expect '"' (skipBlanks s)
  let (value, s) ← readQuoted s
  return ((name, value), skipBlanks s)

/-- The labels after the opening brace, at most as many as the first argument. -/
def readLabels : ℕ → List Char → Option (List Label × List Char)
  | 0, _ => none
  | fuel + 1, s =>
    if (skipBlanks s).head? = some '}' then some ([], (skipBlanks s).tail)
    else do
      let (label, s) ← readLabel s
      if s.head? = some ',' then
        let (labels, s) ← readLabels fuel s.tail
        return (label :: labels, s)
      let s ← expect '}' s
      return ([label], s)

/-- A run of decimal digits. -/
def readDigits (s : List Char) : Option ℕ :=
  if s ≠ [] ∧ s.all Char.isDigit then some (Nat.ofDigitChars 10 s 0) else none

/-- An integer, with a minus sign if it is negative. -/
def readInt : List Char → Option ℤ
  | [] => none
  | c :: s =>
    if c = '-' then (readDigits s).map fun n : ℕ => -(n : ℤ) else (readDigits (c :: s)).map Int.ofNat

/-- The next token, and what follows it. -/
def readToken (s : List Char) : List Char × List Char :=
  (s.takeWhile fun c => !isBlank c, skipBlanks (s.dropWhile fun c => !isBlank c))

/-- The end of a line: a timestamp, or nothing. -/
def readTimestamp (s : List Char) : Option (Option ℤ) :=
  if s = [] then some none
  else do
    let (token, s) := readToken s
    let timestamp ← readInt token
    if s = [] then return some timestamp else none

/-- A line that holds a sample. -/
def readSample (line : List Char) : Option Sample := do
  let (name, s) ← readName nameStart nameRest (skipBlanks line)
  let s := skipBlanks s
  let (labels, s) ← if s.head? = some '{' then readLabels s.length s.tail else some ([], s)
  let (token, s) := readToken (skipBlanks s)
  let value ← readDigits token
  let timestamp ← readTimestamp s
  return ⟨name, labels, value, timestamp⟩

/-- A line without a sample. -/
def isSilent (line : List Char) : Bool :=
  skipBlanks line = [] || (skipBlanks line).head? = some '#'

/-- All samples of a payload. -/
def decode (text : List Char) : Option (List Sample) :=
  ((text.splitOnP (· = '\n')).filter fun line => !isSilent line).mapM readSample

/-! ### Writing -/

def escapeChar (c : Char) : List Char :=
  if c = '\\' then ['\\', '\\'] else if c = '"' then ['\\', '"'] else if c = '\n' then ['\\', 'n']
  else [c]

def escape (value : List Char) : List Char := value.flatMap escapeChar

def encodeLabel (label : Label) : List Char := label.1 ++ '=' :: '"' :: (escape label.2 ++ ['"'])

/-- The labels after the opening brace. -/
def encodeLabels : List Label → List Char
  | [] => ['}']
  | [label] => encodeLabel label ++ ['}']
  | label :: labels => encodeLabel label ++ ',' :: encodeLabels labels

def encodeInt (n : ℤ) : List Char :=
  if n < 0 then '-' :: Nat.toDigits 10 n.natAbs else Nat.toDigits 10 n.natAbs

/-- The end of a line. -/
def encodeTimestamp : Option ℤ → List Char
  | none => []
  | some n => ' ' :: encodeInt n

def encodeSample (s : Sample) : List Char :=
  s.name ++ '{' :: (encodeLabels s.labels ++ ' ' :: (Nat.toDigits 10 s.value ++
    encodeTimestamp s.timestamp))

/-- A sample without labels may go without the braces. -/
def encodeBare (s : Sample) : List Char :=
  s.name ++ ' ' :: (Nat.toDigits 10 s.value ++ encodeTimestamp s.timestamp)

def encode (samples : List Sample) : List Char := samples.flatMap fun s => encodeSample s ++ ['\n']

/-! ### Names and blanks -/

def isName (start rest : Char → Bool) : List Char → Bool
  | [] => false
  | c :: s => start c && s.all rest

theorem readName_append {start rest : Char → Bool} {n : List Char} (h : isName start rest n)
    {d : Char} (hd : rest d = false) (s : List Char) :
    readName start rest (n ++ d :: s) = some (n, d :: s) := by
  cases n with
  | nil => simp [isName] at h
  | cons c n =>
    simp only [isName, Bool.and_eq_true, List.all_eq_true] at h
    simp [readName, h.1, List.takeWhile_append_of_pos h.2, List.dropWhile_append_of_pos h.2, hd]

theorem skipBlanks_of_head {s : List Char} (h : ∀ c ∈ s.head?, isBlank c = false) :
    skipBlanks s = s := by
  cases s with
  | nil => rfl
  | cons c s => simp [skipBlanks, h c rfl]

theorem isBlank_of_nameStart {c : Char} (h : nameStart c) : isBlank c = false := by
  by_contra hc
  simp only [isBlank, Bool.not_eq_false, Bool.or_eq_true, decide_eq_true_eq] at hc
  rcases hc with rfl | rfl <;> exact absurd h (by decide)

theorem nameStart_of_labelStart {c : Char} (h : labelStart c) : nameStart c := by
  simp_all [labelStart, nameStart]

theorem skipBlanks_name {start rest : Char → Bool} (sub : ∀ c, start c → nameStart c)
    {n : List Char} (h : isName start rest n) (s : List Char) :
    skipBlanks (n ++ s) = n ++ s := by
  apply skipBlanks_of_head
  cases n with
  | nil => simp [isName] at h
  | cons c n =>
    simp only [isName, Bool.and_eq_true] at h
    simpa using isBlank_of_nameStart (sub c h.1)

/-! ### Label values -/

theorem readQuoted_quote (s : List Char) : readQuoted ('"' :: s) = some ([], s) := by
  cases s <;> rfl

theorem readQuoted_plain {c : Char} (quote : c ≠ '"') (backslash : c ≠ '\\') (feed : c ≠ '\n')
    (s : List Char) : readQuoted (c :: s) = (readQuoted s).map fun r => (c :: r.1, r.2) := by
  cases s with
  | nil => simp [readQuoted, quote]
  | cons d s =>
    simp only [readQuoted, quote, backslash, feed, if_false]
    cases readQuoted (d :: s) <;> rfl

theorem readQuoted_escaped {d e : Char} (h : unescape d = some e) (s : List Char) :
    readQuoted ('\\' :: d :: s) = (readQuoted s).map fun r => (e :: r.1, r.2) := by
  rw [readQuoted, if_neg (by decide), if_pos rfl, h]
  cases readQuoted s <;> rfl

/-- A character is read back as it was before it was escaped, whatever follows. -/
theorem readQuoted_escapeChar (c : Char) (s : List Char) :
    readQuoted (escapeChar c ++ s) = (readQuoted s).map fun r => (c :: r.1, r.2) := by
  unfold escapeChar
  split_ifs with backslash quote feed
  · subst backslash
    exact readQuoted_escaped rfl s
  · subst quote
    exact readQuoted_escaped rfl s
  · subst feed
    exact readQuoted_escaped rfl s
  · exact readQuoted_plain quote backslash feed s

theorem readQuoted_escape (v s : List Char) :
    readQuoted (escape v ++ '"' :: s) = some (v, s) := by
  induction v with
  | nil => exact readQuoted_quote s
  | cons c v ih =>
    have : escape (c :: v) ++ '"' :: s = escapeChar c ++ (escape v ++ '"' :: s) := by
      simp [escape]
    rw [this, readQuoted_escapeChar, ih]
    rfl

theorem escape_append (v w : List Char) : escape (v ++ w) = escape v ++ escape w :=
  List.flatMap_append

theorem escape_of_plain {v : List Char} (h : ∀ c ∈ v, c ≠ '\\' ∧ c ≠ '"' ∧ c ≠ '\n') :
    escape v = v := by
  induction v with
  | nil => rfl
  | cons c v ih =>
    obtain ⟨backslash, quote, feed⟩ := h c (by simp)
    have rest := ih fun d hd => h d (by simp [hd])
    simp only [escape] at rest
    simp [escape, escapeChar, backslash, quote, feed, rest]

theorem feed_notMem_escape (v : List Char) : '\n' ∉ escape v := by
  intro h
  obtain ⟨c, -, hc⟩ := List.mem_flatMap.mp h
  unfold escapeChar at hc
  split_ifs at hc with h1 h2 h3 <;> simp_all [eq_comm]

/-! ### Labels -/

/-- The names of the sample are names of the format. -/
structure Sample.WellFormed (s : Sample) : Prop where
  name : isName nameStart nameRest s.name
  labels : ∀ l ∈ s.labels, isName labelStart labelRest l.1

theorem readLabel_append {l : Label} (h : isName labelStart labelRest l.1) (s : List Char) :
    readLabel (encodeLabel l ++ s) = some (l, skipBlanks s) := by
  have shape : encodeLabel l ++ s = l.1 ++ '=' :: '"' :: (escape l.2 ++ '"' :: s) := by
    simp [encodeLabel]
  unfold readLabel
  rw [shape, skipBlanks_name (fun _ => nameStart_of_labelStart) h, readName_append h rfl]
  simp [skipBlanks, isBlank, expect, readQuoted_escape]

theorem skipBlanks_label {l : Label} (h : isName labelStart labelRest l.1) (s : List Char) :
    skipBlanks (encodeLabel l ++ s) = encodeLabel l ++ s := by
  simpa [encodeLabel] using
    skipBlanks_name (fun _ => nameStart_of_labelStart) h ('=' :: '"' :: (escape l.2 ++ '"' :: s))

theorem head_label_ne {l : Label} (h : isName labelStart labelRest l.1) (s : List Char) :
    (encodeLabel l ++ s).head? ≠ some '}' := by
  cases hn : l.1 with
  | nil => simp [isName, hn] at h
  | cons c n =>
    simp only [isName, hn, Bool.and_eq_true] at h
    simp only [encodeLabel, hn, List.cons_append, List.head?_cons, ne_eq, Option.some.injEq]
    intro same
    subst same
    exact absurd h.1 (by decide)

/-- All labels are read when the fuel is more than there are of them. -/
theorem readLabels_append {labels : List Label}
    (h : ∀ l ∈ labels, isName labelStart labelRest l.1) {fuel : ℕ} (enough : labels.length < fuel)
    (s : List Char) : readLabels fuel (encodeLabels labels ++ s) = some (labels, s) := by
  induction labels generalizing fuel with
  | nil =>
    obtain ⟨fuel, rfl⟩ := Nat.exists_eq_succ_of_ne_zero (by omega : fuel ≠ 0)
    simp [readLabels, encodeLabels, skipBlanks, isBlank]
  | cons l labels ih =>
    obtain ⟨fuel, rfl⟩ := Nat.exists_eq_succ_of_ne_zero (by omega : fuel ≠ 0)
    have hl := h l (by simp)
    cases labels with
    | nil =>
      simp only [encodeLabels, List.append_assoc, readLabels]
      rw [skipBlanks_label hl, if_neg (head_label_ne hl _), readLabel_append hl]
      simp [skipBlanks, isBlank, expect]
    | cons m labels =>
      have rest : readLabels fuel (encodeLabels (m :: labels) ++ s) = some (m :: labels, s) :=
        ih (fun k hk => h k (by simp [hk])) (by simpa using enough)
      simp only [encodeLabels, List.append_assoc, List.cons_append, readLabels]
      rw [skipBlanks_label hl, if_neg (head_label_ne hl _), readLabel_append hl]
      simp [skipBlanks, isBlank, rest]

theorem length_le_encodeLabels (labels : List Label) :
    labels.length ≤ (encodeLabels labels).length := by
  induction labels with
  | nil => simp
  | cons l labels ih =>
    cases labels with
    | nil => simp [encodeLabels]
    | cons m labels =>
      simp only [encodeLabels, List.length_append, List.length_cons] at ih ⊢
      omega

/-! ### Numbers -/

theorem all_isDigit_toDigits (n : ℕ) : (Nat.toDigits 10 n).all Char.isDigit := by
  rw [List.all_eq_true]
  intro c hc
  exact Nat.isDigit_of_mem_toDigits (by decide) (by decide) hc

theorem readDigits_toDigits (n : ℕ) : readDigits (Nat.toDigits 10 n) = some n := by
  rw [readDigits, if_pos ⟨Nat.toDigits_ne_nil, all_isDigit_toDigits n⟩,
    Nat.ofDigitChars_ten_toDigits]

theorem ne_of_isDigit {c d : Char} (h : c.isDigit) (hd : d.isDigit = false) : c ≠ d := by
  intro same
  subst same
  simp [h] at hd

theorem toDigits_cons (n : ℕ) : ∃ c s, Nat.toDigits 10 n = c :: s ∧ c.isDigit := by
  cases h : Nat.toDigits 10 n with
  | nil => exact absurd h Nat.toDigits_ne_nil
  | cons c s =>
    have hc : c ∈ Nat.toDigits 10 n := by simp [h]
    exact ⟨c, s, rfl, Nat.isDigit_of_mem_toDigits (by decide) (by decide) hc⟩

theorem readInt_encodeInt (n : ℤ) : readInt (encodeInt n) = some n := by
  unfold encodeInt
  split_ifs with neg
  · rw [readInt, if_pos rfl, readDigits_toDigits, Option.map_some, Option.some.injEq]
    omega
  · obtain ⟨c, s, hs, hc⟩ := toDigits_cons n.natAbs
    have := readDigits_toDigits n.natAbs
    rw [hs] at this ⊢
    have minus : c ≠ '-' := ne_of_isDigit hc (by decide)
    rw [readInt, if_neg minus, this, Option.map_some, Option.some.injEq, Int.ofNat_eq_natCast]
    omega

/-- Nothing of a number is a blank or a line feed. -/
def isDense (c : Char) : Bool := !isBlank c && c != '\n'

theorem isDense_of_isDigit {c : Char} (h : c.isDigit) : isDense c := by
  simp [isDense, isBlank, ne_of_isDigit h]

theorem isDense_toDigits {n : ℕ} {c : Char} (hc : c ∈ Nat.toDigits 10 n) : isDense c :=
  isDense_of_isDigit (Nat.isDigit_of_mem_toDigits (by decide) (by decide) hc)

theorem isDense_encodeInt {n : ℤ} {c : Char} (hc : c ∈ encodeInt n) : isDense c := by
  unfold encodeInt at hc
  split_ifs at hc
  · rcases List.mem_cons.mp hc with rfl | hc
    · decide
    · exact isDense_toDigits hc
  · exact isDense_toDigits hc

theorem skipBlanks_of_dense {s : List Char} (h : ∀ c ∈ s, isDense c) (t : List Char)
    (hs : s ≠ []) : skipBlanks (s ++ t) = s ++ t := by
  apply skipBlanks_of_head
  cases s with
  | nil => exact absurd rfl hs
  | cons c s =>
    have := h c (by simp)
    simp only [isDense, Bool.and_eq_true, Bool.not_eq_true'] at this
    simpa using this.1

/-! ### Lines -/

theorem readToken_append {s t : List Char} (h : ∀ c ∈ s, isDense c)
    (ends : ∀ c ∈ t.head?, isBlank c) : readToken (s ++ t) = (s, skipBlanks t) := by
  have token : ∀ c ∈ s, (!isBlank c) = true := by
    intro c hc
    have := h c hc
    simp only [isDense, Bool.and_eq_true] at this
    exact this.1
  unfold readToken
  rw [List.takeWhile_append_of_pos token, List.dropWhile_append_of_pos token]
  cases t with
  | nil => simp
  | cons c t =>
    have hc : isBlank c := ends c rfl
    simp [hc]

theorem encodeInt_ne_nil (n : ℤ) : encodeInt n ≠ [] := by
  unfold encodeInt
  split_ifs
  · simp
  · exact Nat.toDigits_ne_nil

theorem readTimestamp_encodeTimestamp (t : Option ℤ) :
    readTimestamp (skipBlanks (encodeTimestamp t)) = some t := by
  cases t with
  | none => simp [encodeTimestamp, skipBlanks, readTimestamp]
  | some n =>
    have dense : ∀ c ∈ encodeInt n, isDense c := fun _ => isDense_encodeInt
    have skip : skipBlanks (encodeTimestamp (some n)) = encodeInt n := by
      have := skipBlanks_of_dense dense [] (encodeInt_ne_nil n)
      simpa [encodeTimestamp, skipBlanks, isBlank] using this
    have token : readToken (encodeInt n) = (encodeInt n, []) := by
      simpa [skipBlanks] using readToken_append (t := []) dense (by simp)
    rw [skip, readTimestamp, if_neg (encodeInt_ne_nil n), token]
    simp [readInt_encodeInt]

/-- The blank before a value is skipped. -/
theorem skipBlanks_value (n : ℕ) (t : Option ℤ) :
    skipBlanks (' ' :: (Nat.toDigits 10 n ++ encodeTimestamp t)) =
      Nat.toDigits 10 n ++ encodeTimestamp t := by
  have := skipBlanks_of_dense (fun _ => isDense_toDigits) (encodeTimestamp t)
    (Nat.toDigits_ne_nil (n := n) (b := 10))
  simpa [skipBlanks, isBlank] using this

theorem readToken_value (n : ℕ) (t : Option ℤ) :
    readToken (Nat.toDigits 10 n ++ encodeTimestamp t) =
      (Nat.toDigits 10 n, skipBlanks (encodeTimestamp t)) := by
  apply readToken_append fun _ => isDense_toDigits
  cases t <;> simp [encodeTimestamp, isBlank]

theorem readSample_encodeSample {s : Sample} (h : s.WellFormed) :
    readSample (encodeSample s) = some s := by
  have enough : s.labels.length < (encodeLabels s.labels ++ ' ' :: (Nat.toDigits 10 s.value ++
      encodeTimestamp s.timestamp)).length + 1 := by
    have := length_le_encodeLabels s.labels
    simp only [List.length_append]
    omega
  unfold readSample encodeSample
  rw [skipBlanks_name (fun _ => id) h.name, readName_append h.name (by decide)]
  simp only [Option.bind_eq_bind, Option.bind_some]
  rw [skipBlanks_of_head (s := '{' :: _) (by simp [isBlank])]
  simp only [List.head?_cons, List.tail_cons, List.length_cons, if_true,
    readLabels_append h.labels enough, Option.bind_some]
  simp [skipBlanks_value, readToken_value, readDigits_toDigits, readTimestamp_encodeTimestamp]

theorem readSample_encodeBare {s : Sample} (h : s.WellFormed) (bare : s.labels = []) :
    readSample (encodeBare s) = some s := by
  have head : (Nat.toDigits 10 s.value ++ encodeTimestamp s.timestamp).head? ≠ some '{' := by
    obtain ⟨c, digits, hdigits, digit⟩ := toDigits_cons s.value
    rw [hdigits, List.cons_append, List.head?_cons]
    intro same
    exact ne_of_isDigit digit (by decide) (Option.some.inj same)
  have again : skipBlanks (Nat.toDigits 10 s.value ++ encodeTimestamp s.timestamp) =
      Nat.toDigits 10 s.value ++ encodeTimestamp s.timestamp :=
    skipBlanks_of_dense (fun _ => isDense_toDigits) _ Nat.toDigits_ne_nil
  unfold readSample encodeBare
  rw [skipBlanks_name (fun _ => id) h.name, readName_append h.name (by decide)]
  simp only [Option.bind_eq_bind, Option.bind_some, skipBlanks_value, if_neg head, again,
    readToken_value, readDigits_toDigits, readTimestamp_encodeTimestamp]
  rw [← bare]
  rfl

theorem isDense_of_nameStart {c : Char} (h : nameStart c) : isDense c := by
  have blank := isBlank_of_nameStart h
  have feed : c ≠ '\n' := by
    intro same
    subst same
    exact absurd h (by decide)
  simp [isDense, blank, feed]

theorem isDense_name {start rest : Char → Bool} (hs : ∀ c, start c → nameStart c)
    (hr : ∀ c, rest c → nameRest c) {n : List Char} (h : isName start rest n) {c : Char}
    (hc : c ∈ n) : isDense c := by
  cases n with
  | nil => simp at hc
  | cons d n =>
    simp only [isName, Bool.and_eq_true, List.all_eq_true] at h
    rcases List.mem_cons.mp hc with rfl | hc
    · exact isDense_of_nameStart (hs _ h.1)
    · have := hr c (h.2 c hc)
      simp only [nameRest, Bool.or_eq_true] at this
      exact this.elim isDense_of_nameStart isDense_of_isDigit

theorem feed_notMem_of_dense {s : List Char} (h : ∀ c ∈ s, isDense c) : '\n' ∉ s := by
  intro hc
  exact absurd (h _ hc) (by decide)

theorem nameRest_of_labelRest {c : Char} (h : labelRest c) : nameRest c := by
  simp only [labelRest, nameRest, Bool.or_eq_true] at h ⊢
  exact h.imp nameStart_of_labelStart id

theorem feed_notMem_encodeLabels {labels : List Label}
    (h : ∀ l ∈ labels, isName labelStart labelRest l.1) : '\n' ∉ encodeLabels labels := by
  have one : ∀ l ∈ labels, '\n' ∉ encodeLabel l := by
    intro l hl
    have name := feed_notMem_of_dense fun c => isDense_name (fun _ => nameStart_of_labelStart)
      (fun _ => nameRest_of_labelRest) (h l hl) (c := c)
    simp [encodeLabel, name, feed_notMem_escape]
  clear h
  induction labels with
  | nil => simp [encodeLabels]
  | cons l labels ih =>
    have hl := one l (by simp)
    cases labels with
    | nil => simp [encodeLabels, hl]
    | cons m labels =>
      have rest := ih fun k hk => one k (by simp [hk])
      simp [encodeLabels, hl, rest]

theorem feed_notMem_value (n : ℕ) (t : Option ℤ) :
    '\n' ∉ Nat.toDigits 10 n ++ encodeTimestamp t := by
  have value := feed_notMem_of_dense fun c => isDense_toDigits (n := n) (c := c)
  have stamp : '\n' ∉ encodeTimestamp t := by
    cases t with
    | none => simp [encodeTimestamp]
    | some n =>
      have := feed_notMem_of_dense fun c => isDense_encodeInt (n := n) (c := c)
      simp [encodeTimestamp, this]
  simp [value, stamp]

/-- A sample stays within its line. -/
theorem feed_notMem_encodeSample {s : Sample} (h : s.WellFormed) : '\n' ∉ encodeSample s := by
  have name := feed_notMem_of_dense fun c =>
    isDense_name (fun _ => id) (fun _ => id) h.name (c := c)
  have labels := feed_notMem_encodeLabels h.labels
  have value := feed_notMem_value s.value s.timestamp
  rw [List.mem_append] at value
  simpa [encodeSample, name, labels] using value

theorem feed_notMem_encodeBare {s : Sample} (h : s.WellFormed) : '\n' ∉ encodeBare s := by
  have name := feed_notMem_of_dense fun c =>
    isDense_name (fun _ => id) (fun _ => id) h.name (c := c)
  have value := feed_notMem_value s.value s.timestamp
  rw [List.mem_append] at value
  simpa [encodeBare, name] using value

/-- A line that starts with a name holds a sample. -/
theorem isSilent_name {n : List Char} (name : isName nameStart nameRest n) (s : List Char) :
    isSilent (n ++ s) = false := by
  unfold isSilent
  rw [skipBlanks_name (fun _ => id) name]
  cases n with
  | nil => simp [isName] at name
  | cons c n =>
    simp only [isName, Bool.and_eq_true] at name
    have : c ≠ '#' := by
      intro same
      subst same
      exact absurd name.1 (by decide)
    simp [this]

theorem splitOnP_lines {lines : List (List Char)} (h : ∀ l ∈ lines, '\n' ∉ l) :
    (lines.flatMap (· ++ ['\n'])).splitOnP (· = '\n') = lines ++ [[]] := by
  induction lines with
  | nil => rfl
  | cons l lines ih =>
    have plain : ∀ c ∈ l, (decide (c = '\n')) = false := by
      intro c hc
      rw [decide_eq_false_iff_not]
      intro same
      subst same
      exact h l (by simp) hc
    rw [List.flatMap_cons, List.append_assoc, List.singleton_append,
      List.splitOnP_append_cons_of_forall_mem plain _ (by simp),
      ih fun k hk => h k (by simp [hk]), List.cons_append]

/-- A step that succeeds on each element succeeds on the list. -/
theorem mapM_eq_some {A B : Type} {f : A → Option B} {xs : List A} {ys : List B}
    (h : List.Forall₂ (fun x y => f x = some y) xs ys) : xs.mapM f = some ys := by
  induction h with
  | nil => rfl
  | cons hx _ ih =>
    rw [List.mapM_cons, hx, ih]
    rfl

/-- A payload of lines that hold a sample each. -/
theorem decode_lines {line : Sample → List Char} {samples : List Sample}
    (plain : ∀ s ∈ samples, '\n' ∉ line s) (spoken : ∀ s ∈ samples, isSilent (line s) = false)
    (reads : ∀ s ∈ samples, readSample (line s) = some s) :
    decode (samples.flatMap fun s => line s ++ ['\n']) = some samples := by
  have lines : (samples.flatMap fun s => line s ++ ['\n']) =
      (samples.map line).flatMap (· ++ ['\n']) := by
    rw [List.flatMap_map]
  have kept : (samples.map line).filter (fun line => !isSilent line) = samples.map line := by
    rw [List.filter_eq_self]
    intro l hl
    obtain ⟨s, hs, rfl⟩ := List.mem_map.mp hl
    simp [spoken s hs]
  have last : [([] : List Char)].filter (fun line => !isSilent line) = [] := by
    simp [isSilent, skipBlanks]
  rw [decode, lines, splitOnP_lines, List.filter_append, kept, last, List.append_nil]
  · apply mapM_eq_some
    rw [List.forall₂_map_left_iff, List.forall₂_same]
    exact reads
  · intro l hl
    obtain ⟨s, hs, rfl⟩ := List.mem_map.mp hl
    exact plain s hs

/-- Reading back a written payload gives its samples. -/
theorem decode_encode {samples : List Sample} (h : ∀ s ∈ samples, s.WellFormed) :
    decode (encode samples) = some samples := by
  apply decode_lines
  · intro s hs
    exact feed_notMem_encodeSample (h s hs)
  · intro s hs
    exact isSilent_name (h s hs).name _
  · intro s hs
    exact readSample_encodeSample (h s hs)

/-- So does reading back samples without labels. -/
theorem decode_bare {samples : List Sample} (h : ∀ s ∈ samples, s.WellFormed)
    (bare : ∀ s ∈ samples, s.labels = []) :
    decode (samples.flatMap fun s => encodeBare s ++ ['\n']) = some samples := by
  apply decode_lines
  · intro s hs
    exact feed_notMem_encodeBare (h s hs)
  · intro s hs
    exact isSilent_name (h s hs).name _
  · intro s hs
    exact readSample_encodeBare (h s hs) (bare s hs)

end VmWatcher.Exposition

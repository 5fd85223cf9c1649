import VmWatcher.Daemon.Oversized
import VmWatcher.Daemon.Proofs.Metrics
import VmWatcher.Ebpf.Proofs.Classifier

/-!
# Published oversized counters

Every collection tick adds up the entries it can read, from zero. So the published counters
of a direction are the sums over the CPUs when its entry was read, and zero when it was
not: a direction whose packets were published before, and whose entry cannot be read, loses
its numbers. As long as the sums fit a `u64`, nothing else makes a counter fall.
-/

namespace VmWatcher

/-! ### Sums over the CPUs -/

instance : Preorder OversizedStats where
  le a b := a.packets ≤ b.packets ∧ a.bytes ≤ b.bytes
  le_refl _ := ⟨Nat.le_refl _, Nat.le_refl _⟩
  le_trans _ _ _ hab hbc := ⟨hab.1.trans hbc.1, hab.2.trans hbc.2⟩

/-- The sums of the values of all CPUs. -/
def perCpuSum (values : List OversizedStats) : OversizedStats :=
  ⟨(values.map OversizedStats.packets).sum, (values.map OversizedStats.bytes).sum⟩

namespace OversizedStats

theorem zero_le (a : OversizedStats) : {} ≤ a := ⟨Nat.zero_le _, Nat.zero_le _⟩

theorem eq_zero_of_le {a : OversizedStats} (h : a ≤ {}) : a = {} := by
  cases a
  simp only [mk.injEq]
  exact ⟨Nat.le_zero.mp h.1, Nat.le_zero.mp h.2⟩

theorem le_plus (a v : OversizedStats) : a ≤ a + v := ⟨Nat.le_add_right _ _, Nat.le_add_right _ _⟩

/-- Both counters are `u64`s. -/
def Fits (a : OversizedStats) : Prop := a.packets < 2 ^ 64 ∧ a.bytes < 2 ^ 64

/-- What is left of the counters in `u64`s. -/
def wrap (a : OversizedStats) : OversizedStats := ⟨a.packets % 2 ^ 64, a.bytes % 2 ^ 64⟩

theorem wrap_le (a : OversizedStats) : a.wrap ≤ a := ⟨Nat.mod_le _ _, Nat.mod_le _ _⟩

theorem Fits.wrap_eq {a : OversizedStats} (h : a.Fits) : a.wrap = a := by
  simp only [wrap, Nat.mod_eq_of_lt h.1, Nat.mod_eq_of_lt h.2]

theorem fits_zero : Fits {} := ⟨Nat.two_pow_pos 64, Nat.two_pow_pos 64⟩

theorem fits_add (a b : OversizedStats) : (a.add b).Fits := ⟨u64Add_lt _ _, u64Add_lt _ _⟩

theorem zero_add (v : OversizedStats) : add {} v = v.wrap := by
  simp [add, wrap, u64Add]

theorem Fits.add_zero {a : OversizedStats} (h : a.Fits) : a.add {} = a := by
  simp only [add, u64Add_zero h.1, u64Add_zero h.2]

theorem add_add (a b c : OversizedStats) : (a.add b).add c = a.add (b + c) := by
  simp only [add, u64Add_u64Add]
  rfl

end OversizedStats

theorem perCpuSum_cons (v : OversizedStats) (values : List OversizedStats) :
    perCpuSum (v :: values) = v + perCpuSum values := by
  simp only [perCpuSum, List.map_cons, List.sum_cons]
  rfl

theorem perCpuSum_append (values values' : List OversizedStats) :
    perCpuSum (values ++ values') = perCpuSum values + perCpuSum values' := by
  simp only [perCpuSum, List.map_append, List.sum_append]
  rfl

/-- The loop over the values of an entry adds their sums. -/
theorem foldl_add_eq (values : List OversizedStats) {slot : OversizedStats} (fits : slot.Fits) :
    values.foldl .add slot = slot.add (perCpuSum values) := by
  induction values generalizing slot with
  | nil => exact fits.add_zero.symm
  | cons v values ih =>
    rw [List.foldl_cons, ih (OversizedStats.fits_add slot v), perCpuSum_cons, OversizedStats.add_add]

/-- What grows on one CPU grows in sum. -/
theorem perCpuSum_modify (values : List OversizedStats) (cpu : ℕ) (v : OversizedStats) :
    perCpuSum values ≤ perCpuSum (values.modify cpu fun old => old + v) := by
  induction values generalizing cpu with
  | nil =>
    rw [List.modify_nil]
  | cons old values ih =>
    cases cpu with
    | zero =>
      rw [List.modify_zero_cons, perCpuSum_cons, perCpuSum_cons]
      have := OversizedStats.le_plus old v
      exact ⟨Nat.add_le_add_right this.1 _, Nat.add_le_add_right this.2 _⟩
    | succ cpu =>
      rw [List.modify_succ_cons, perCpuSum_cons, perCpuSum_cons]
      exact ⟨Nat.add_le_add_left (ih cpu).1 _, Nat.add_le_add_left (ih cpu).2 _⟩

/-- The sums of the kernel's counters of a direction. -/
def kernelSum (map : Table UInt8 (List OversizedStats)) (dir : UInt8) : OversizedStats :=
  perCpuSum ((map dir).getD [])

theorem kernelSum_insert (map : Table UInt8 (List OversizedStats)) (dir dir' : UInt8)
    (values : List OversizedStats) : kernelSum (map.insert dir values) dir' =
      if dir' = dir then perCpuSum values else kernelSum map dir' := by
  by_cases same : dir' = dir
  · simp [kernelSum, same]
  · simp [kernelSum, same]

/-! ### Entries by key -/

section Entries

variable {K V : Type} [DecidableEq K] {entries : List (K × V)}

theorem filter_eq_nil_of_notMem {k : K} (absent : k ∉ entries.map Prod.fst) :
    entries.filter (·.1 = k) = [] := by
  rw [List.filter_eq_nil_iff]
  intro entry mem same
  exact absent (of_decide_eq_true same ▸ List.mem_map_of_mem mem)

/-- Of entries with distinct keys, one has the given key. -/
theorem filter_eq_singleton (distinct : (entries.map Prod.fst).Nodup) {entry : K × V}
    (mem : entry ∈ entries) : entries.filter (·.1 = entry.1) = [entry] := by
  induction entries with
  | nil => cases mem
  | cons first entries ih =>
    rw [List.map_cons, List.nodup_cons] at distinct
    obtain ⟨new, distinct⟩ := distinct
    rcases List.mem_cons.mp mem with rfl | mem
    · simp [filter_eq_nil_of_notMem new]
    · have other : first.1 ≠ entry.1 := by
        intro same
        exact new (same ▸ List.mem_map_of_mem mem)
      simp [other, ih distinct mem]

end Entries

/-! ### A read -/

/-- What the items say of a direction. -/
def sumRead (items : List OversizedItem) (dir : UInt8) : OversizedStats :=
  perCpuSum (((entriesRead items).filter (·.1 = dir)).flatMap Prod.snd)

theorem sumRead_cons (dir' : UInt8) (values : List OversizedStats) (items : List OversizedItem)
    (dir : UInt8) : sumRead (some (dir', values) :: items) dir =
      if dir' = dir then perCpuSum values + sumRead items dir else sumRead items dir := by
  unfold sumRead entriesRead
  by_cases same : dir' = dir
  · simp [same, perCpuSum_append]
  · simp [same]

theorem foldl_readOversizedItem (items : List OversizedItem) {rx tx : OversizedStats}
    (hrx : rx.Fits) (htx : tx.Fits) :
    items.foldl readOversizedItem (rx, tx) =
      (rx.add (sumRead items dirRx), tx.add (sumRead items dirTx)) := by
  induction items generalizing rx tx with
  | nil => exact Prod.ext hrx.add_zero.symm htx.add_zero.symm
  | cons item items ih =>
    rw [List.foldl_cons]
    cases item with
    | none => exact ih hrx htx
    | some entry =>
      obtain ⟨dir, values⟩ := entry
      have apart : dirRx ≠ dirTx := by decide
      rw [sumRead_cons, sumRead_cons, readOversizedItem]
      by_cases received : dir = dirRx
      · subst received
        rw [if_pos rfl, if_pos rfl, if_neg apart, foldl_add_eq values hrx,
          ih (OversizedStats.fits_add _ _) htx, OversizedStats.add_add]
      · by_cases sent : dir = dirTx
        · subst sent
          rw [if_neg received, if_pos rfl, if_neg received, if_pos rfl, foldl_add_eq values htx,
            ih hrx (OversizedStats.fits_add _ _), OversizedStats.add_add]
        · rw [if_neg received, if_neg sent, if_neg received, if_neg sent]
          exact ih hrx htx

theorem readOversized_eq (items : List OversizedItem) :
    readOversized items = ((sumRead items dirRx).wrap, (sumRead items dirTx).wrap) := by
  rw [readOversized, foldl_readOversizedItem items OversizedStats.fits_zero OversizedStats.fits_zero,
    OversizedStats.zero_add, OversizedStats.zero_add]

section Reads

variable {map : Table UInt8 (List OversizedStats)} {items : List OversizedItem} {dir : UInt8}

/-- A direction whose entry was not read comes out as zero. -/
theorem sumRead_of_notMem (lost : dir ∉ directionsRead items) : sumRead items dir = {} := by
  rw [sumRead, filter_eq_nil_of_notMem lost]
  rfl

/-- A direction whose entry was read comes out as the sums of the kernel. -/
theorem OversizedReads.sumRead_of_mem (reads : OversizedReads map items)
    (read : dir ∈ directionsRead items) : sumRead items dir = kernelSum map dir := by
  obtain ⟨there, distinct, -⟩ := reads
  obtain ⟨entry, mem, rfl⟩ := List.mem_map.mp read
  rw [sumRead, filter_eq_singleton distinct mem, kernelSum, there entry mem]
  simp

theorem OversizedReads.sumRead_le (reads : OversizedReads map items) (dir : UInt8) :
    sumRead items dir ≤ kernelSum map dir := by
  by_cases read : dir ∈ directionsRead items
  · rw [reads.sumRead_of_mem read]
  · rw [sumRead_of_notMem read]
    exact OversizedStats.zero_le _

/-- A read without an error comes out as the sums of the kernel. -/
theorem OversizedReads.sumRead_eq (reads : OversizedReads map items)
    (fine : ∀ item ∈ items, item.isSome) (isTx : Bool) :
    sumRead items (directionOf isTx) = kernelSum map (directionOf isTx) := by
  have complete : (map (directionOf isTx)).isSome → directionOf isTx ∈ directionsRead items := by
    cases isTx
    · exact (reads.2.2 fine).1
    · exact (reads.2.2 fine).2
  by_cases read : directionOf isTx ∈ directionsRead items
  · exact reads.sumRead_of_mem read
  · have absent : map (directionOf isTx) = none := by
      rw [Option.isSome_iff_ne_none] at complete
      exact not_not.mp fun there => read (complete there)
    rw [sumRead_of_notMem read, kernelSum, absent]
    rfl

end Reads

/-! ### The payload -/

/-- The lines that a direction adds. -/
def oversizedSamples (dir : String) (stats : OversizedStats) (nowMs : ℤ) :
    List Exposition.Sample :=
  if stats = {} then []
  else
    [⟨("vmbw_oversized_" ++ dir ++ "_packets_total").toList, [], stats.packets, some nowMs⟩,
      ⟨("vmbw_oversized_" ++ dir ++ "_bytes_total").toList, [], stats.bytes, some nowMs⟩]

theorem or_eq_zero_iff (stats : OversizedStats) :
    stats.packets ||| stats.bytes = 0 ↔ stats = {} := by
  cases stats
  simp [Nat.or_eq_zero_iff]

theorem toList_oversizedLines (dir : String) (stats : OversizedStats) (nowMs : ℤ) (out : String) :
    (out ++ s!"vmbw_oversized_{dir}_packets_total {stats.packets} {nowMs}\n" ++
      s!"vmbw_oversized_{dir}_bytes_total {stats.bytes} {nowMs}\n").toList =
      out.toList ++ (Exposition.encodeBare
        ⟨("vmbw_oversized_" ++ dir ++ "_packets_total").toList, [], stats.packets, some nowMs⟩ ++
          '\n' :: (Exposition.encodeBare
            ⟨("vmbw_oversized_" ++ dir ++ "_bytes_total").toList, [], stats.bytes, some nowMs⟩ ++
              ['\n'])) := by
  have same : ∀ t : String, toString t = t := fun _ => rfl
  have value : ∀ n : ℕ, (toString n).toList = Nat.toDigits 10 n := fun _ => Nat.toList_repr
  simp only [Exposition.encodeBare, Exposition.encodeTimestamp, same, value, toList_toString_int,
    String.toList_append]
  simp

theorem toList_renderPromLinesOversized (oversized : OversizedStats × OversizedStats)
    (nowMs : ℤ) :
    (renderPromLinesOversized oversized nowMs).toList =
      (oversizedSamples "rx" oversized.1 nowMs ++
        oversizedSamples "tx" oversized.2 nowMs).flatMap fun s =>
          Exposition.encodeBare s ++ ['\n'] := by
  rw [renderPromLinesOversized, toList_foldl (f := fun d : String × OversizedStats =>
    (oversizedSamples d.1 d.2 nowMs).flatMap fun s => Exposition.encodeBare s ++ ['\n'])]
  · simp
  · intro out d
    obtain ⟨dir, stats⟩ := d
    by_cases none : stats = {}
    · simp [none, oversizedSamples]
    · have some : ¬ stats.packets ||| stats.bytes = 0 :=
        fun zero => none ((or_eq_zero_iff stats).mp zero)
      simp only [if_neg some, oversizedSamples, if_neg none]
      apply (toList_oversizedLines dir stats nowMs out).trans
      simp only [List.flatMap_cons, List.flatMap_nil, List.append_nil, List.append_assoc,
        List.singleton_append]

theorem wellFormed_oversizedSamples {dir : String}
    (packets : Exposition.isName Exposition.nameStart Exposition.nameRest
      ("vmbw_oversized_" ++ dir ++ "_packets_total").toList)
    (bytes : Exposition.isName Exposition.nameStart Exposition.nameRest
      ("vmbw_oversized_" ++ dir ++ "_bytes_total").toList)
    (stats : OversizedStats) (nowMs : ℤ) :
    ∀ s ∈ oversizedSamples dir stats nowMs, s.WellFormed ∧ s.labels = [] := by
  intro s hs
  unfold oversizedSamples at hs
  split at hs
  · cases hs
  · simp only [List.mem_cons, List.not_mem_nil, or_false] at hs
    rcases hs with rfl | rfl
    · exact ⟨⟨packets, by simp⟩, rfl⟩
    · exact ⟨⟨bytes, by simp⟩, rfl⟩

/-- Reading back the lines gives the samples of both directions. -/
theorem decode_renderPromLinesOversized (oversized : OversizedStats × OversizedStats)
    (nowMs : ℤ) :
    Exposition.decode (renderPromLinesOversized oversized nowMs).toList =
      some (oversizedSamples "rx" oversized.1 nowMs ++
        oversizedSamples "tx" oversized.2 nowMs) := by
  have good : ∀ s ∈ oversizedSamples "rx" oversized.1 nowMs ++
      oversizedSamples "tx" oversized.2 nowMs, s.WellFormed ∧ s.labels = [] := by
    intro s hs
    rcases List.mem_append.mp hs with hs | hs
    · exact wellFormed_oversizedSamples (by decide) (by decide) _ _ s hs
    · exact wellFormed_oversizedSamples (by decide) (by decide) _ _ s hs
  rw [toList_renderPromLinesOversized]
  apply Exposition.decode_bare
  · intro s hs
    exact (good s hs).1
  · intro s hs
    exact (good s hs).2

/-- The value that a payload has for a series, if it has one. -/
def promValue (payload name : String) : Option ℕ :=
  (((Exposition.decode payload.toList).getD []).find? (·.name = name.toList)).map (·.value)

/-- The value of a series of a direction. -/
def oversizedValue (dir : String) (stats : OversizedStats) (name : String) : Option ℕ :=
  if stats = {} then none
  else if name = "vmbw_oversized_" ++ dir ++ "_packets_total" then some stats.packets
  else if name = "vmbw_oversized_" ++ dir ++ "_bytes_total" then some stats.bytes
  else none

theorem find_oversizedSamples (dir : String) (stats : OversizedStats) (nowMs : ℤ)
    (name : String) :
    ((oversizedSamples dir stats nowMs).find? (·.name = name.toList)).map (·.value) =
      oversizedValue dir stats name := by
  unfold oversizedSamples oversizedValue
  by_cases none : stats = {}
  · simp [none]
  · rw [if_neg none, if_neg none]
    by_cases packets : name = "vmbw_oversized_" ++ dir ++ "_packets_total"
    · simp [packets]
    · by_cases bytes : name = "vmbw_oversized_" ++ dir ++ "_bytes_total"
      · simp [bytes]
      · have first : ¬ ("vmbw_oversized_" ++ dir ++ "_packets_total").toList = name.toList :=
          fun same => packets (String.toList_injective same).symm
        have second : ¬ ("vmbw_oversized_" ++ dir ++ "_bytes_total").toList = name.toList :=
          fun same => bytes (String.toList_injective same).symm
        rw [if_neg packets, if_neg bytes, List.find?_cons_of_neg (by simpa using first),
          List.find?_cons_of_neg (by simpa using second)]
        rfl

theorem promValue_payload (s : OversizedEngine) (nowMs : ℤ) (name : String) :
    promValue (s.payload nowMs) name =
      (oversizedValue "rx" s.oversized.1 name).or (oversizedValue "tx" s.oversized.2 name) := by
  rw [promValue, OversizedEngine.payload, decode_renderPromLinesOversized, Option.getD_some,
    List.find?_append, Option.map_or, find_oversizedSamples, find_oversizedSamples]

theorem oversizedValue_mono {dir : String} {stats stats' : OversizedStats} (le : stats ≤ stats')
    {name : String} {v : ℕ} (h : oversizedValue dir stats name = some v) :
    ∃ v', oversizedValue dir stats' name = some v' ∧ v ≤ v' := by
  unfold oversizedValue at h ⊢
  by_cases none : stats = {}
  · simp [none] at h
  · have none' : stats' ≠ {} := by
      intro zero
      subst zero
      exact none (OversizedStats.eq_zero_of_le le)
    rw [if_neg none] at h
    rw [if_neg none']
    by_cases packets : name = "vmbw_oversized_" ++ dir ++ "_packets_total"
    · rw [if_pos packets] at h
      cases h
      exact ⟨stats'.packets, if_pos packets, le.1⟩
    · rw [if_neg packets] at h
      rw [if_neg packets]
      split at h
      · next bytes =>
        cases h
        exact ⟨stats'.bytes, if_pos bytes, le.2⟩
      · cases h

/-- A series of TX is none of RX. -/
theorem oversizedValue_rx_of_tx {stats : OversizedStats} {name : String} {v : ℕ}
    (h : oversizedValue "tx" stats name = some v) (stats' : OversizedStats) :
    oversizedValue "rx" stats' name = none := by
  unfold oversizedValue at h ⊢
  split at h
  · cases h
  · by_cases none : stats' = {}
    · rw [if_pos none]
    · rw [if_neg none]
      split at h
      · next same =>
        subst same
        rfl
      · split at h
        · next same =>
          subst same
          rfl
        · cases h

namespace OversizedEngine

theorem promValue_mono {s t : OversizedEngine} (rx : s.oversized.1 ≤ t.oversized.1)
    (tx : s.oversized.2 ≤ t.oversized.2) (nowMs nowMs' : ℤ) {name : String} {v : ℕ}
    (h : promValue (s.payload nowMs) name = some v) :
    ∃ v', promValue (t.payload nowMs') name = some v' ∧ v ≤ v' := by
  rw [promValue_payload] at h ⊢
  rcases Option.or_eq_some_iff.mp h with h | ⟨-, h⟩
  · obtain ⟨v', hv, le⟩ := oversizedValue_mono rx h
    exact ⟨v', by rw [hv, Option.some_or], le⟩
  · obtain ⟨v', hv, le⟩ := oversizedValue_mono tx h
    exact ⟨v', by rw [oversizedValue_rx_of_tx hv, Option.none_or, hv], le⟩

/-! ### Steps -/

/-- The published counters of a direction. -/
def counter (s : OversizedEngine) (isTx : Bool) : OversizedStats :=
  if isTx then s.oversized.2 else s.oversized.1

/-- What the kernel has counted in a direction. -/
def counted (s : OversizedEngine) (isTx : Bool) : OversizedStats :=
  kernelSum s.oversizedMap (directionOf isTx)

variable {s t : OversizedEngine} {e : OversizedEvent} {items : List OversizedItem}

theorem step_cases (h : s.step e = some t) :
    (∃ dir cpu packets bytes, e = .grow dir cpu packets bytes ∧
      t = { s with
        oversizedMap := s.oversizedMap.insert dir
          ((s.values dir).modify cpu fun v => v + ⟨packets, bytes⟩) }) ∨
    ∃ items, e = .collectTick items ∧ OversizedReads s.oversizedMap items ∧
      t = { s with oversized := readOversized items } := by
  cases e with
  | grow dir cpu packets bytes =>
    simp only [step, Option.some.injEq] at h
    exact .inl ⟨dir, cpu, packets, bytes, rfl, h.symm⟩
  | collectTick items =>
    simp only [step, Option.ite_none_right_eq_some, Option.some.injEq] at h
    exact .inr ⟨items, rfl, h.1, h.2.symm⟩

/-- A tick publishes what it reads. -/
theorem counter_tick (isTx : Bool) :
    ({ s with oversized := readOversized items } : OversizedEngine).counter isTx =
      (sumRead items (directionOf isTx)).wrap := by
  rw [counter, readOversized_eq]
  cases isTx
  · rfl
  · rfl

theorem kernelSum_le_values (s : OversizedEngine) (dir : UInt8) :
    kernelSum s.oversizedMap dir ≤ perCpuSum (s.values dir) := by
  unfold kernelSum values
  cases s.oversizedMap dir with
  | none => exact OversizedStats.zero_le _
  | some values => exact le_refl _

/-- The counters of the kernel only grow. -/
theorem counted_le (h : s.step e = some t) (isTx : Bool) : s.counted isTx ≤ t.counted isTx := by
  rcases step_cases h with ⟨dir, cpu, packets, bytes, -, rfl⟩ | ⟨items, -, -, rfl⟩
  · unfold counted
    rw [kernelSum_insert]
    split
    · next same =>
      rw [same]
      exact (s.kernelSum_le_values dir).trans (perCpuSum_modify _ _ _)
    · exact le_refl _
  · exact le_refl _

/-- The published counters lag behind the counters of the kernel. -/
def Behind (s : OversizedEngine) : Prop := ∀ isTx, s.counter isTx ≤ s.counted isTx

theorem behind_start (cpus : ℕ) (map : Table UInt8 (List OversizedStats)) :
    (start cpus map).Behind := by
  intro isTx
  cases isTx
  · exact OversizedStats.zero_le _
  · exact OversizedStats.zero_le _

theorem Behind.step (behind : s.Behind) (h : s.step e = some t) : t.Behind := by
  intro isTx
  have grown := counted_le h isTx
  rcases step_cases h with ⟨dir, cpu, packets, bytes, -, rfl⟩ | ⟨items, -, reads, rfl⟩
  · exact (behind isTx).trans grown
  · rw [counter_tick]
    exact (OversizedStats.wrap_le _).trans (reads.sumRead_le _)

/-! ### The data path -/

/-- The entries that the programs see on a CPU. -/
def onCpu (s : OversizedEngine) (cpu : ℕ) : Table UInt8 OversizedStats :=
  fun dir => (s.oversizedMap dir).bind fun values => values[cpu]?

/-- Every entry has a value for each CPU. -/
def PerCpu (s : OversizedEngine) : Prop :=
  ∀ dir values, s.oversizedMap dir = some values → values.length = s.cpus

theorem PerCpu.length_values (wide : s.PerCpu) (dir : UInt8) : (s.values dir).length = s.cpus := by
  unfold values
  cases h : s.oversizedMap dir with
  | none => simp
  | some values => exact wide dir values h

theorem PerCpu.step (wide : s.PerCpu) (h : s.step e = some t) : t.PerCpu := by
  rcases step_cases h with ⟨dir, cpu, packets, bytes, -, rfl⟩ | ⟨items, -, -, rfl⟩
  · intro dir' values h
    by_cases own : dir' = dir
    · subst own
      obtain rfl := Option.some.inj (Table.insert_self.symm.trans h)
      rw [List.length_modify]
      exact wide.length_values dir'
    · exact wide dir' values ((Table.insert_of_ne own).symm.trans h)
  · exact wide

/-- A CPU has a value of every entry, and a zero of an entry that is not there yet. -/
theorem PerCpu.getElem_values (wide : s.PerCpu) {cpu : ℕ} (here : cpu < s.cpus) (dir : UInt8) :
    (s.values dir)[cpu]? = some ((s.onCpu cpu dir).getD {}) := by
  unfold values onCpu
  cases h : s.oversizedMap dir with
  | none => simp [here]
  | some values => simp [wide dir values h, here]

/-- A packet too large to police is growth on the CPU that has it, if no counter wraps. -/
theorem PerCpu.recordOversized_onCpu (wide : s.PerCpu) {m : EbpfMaps} {cpu : ℕ}
    (sees : m.oversized = s.onCpu cpu) (here : cpu < s.cpus) {inserts : Inserts}
    (taken : inserts.oversized) {dir : UInt8} {lenBytes : ℕ}
    (room : (((s.onCpu cpu dir).getD {}) + ⟨1, lenBytes⟩).Fits)
    (h : s.step (.grow dir cpu 1 lenBytes) = some t) :
    (m.recordOversized inserts dir lenBytes).oversized = t.onCpu cpu := by
  simp only [OversizedEngine.step, Option.some.injEq] at h
  subst h
  rw [EbpfMaps.recordOversized, taken, EbpfMaps.entryOrInsert_true, sees]
  funext dir'
  by_cases same : dir' = dir
  · subst same
    have recorded : ((s.onCpu cpu dir').getD {}).record lenBytes =
        (s.onCpu cpu dir').getD {} + ⟨1, lenBytes⟩ := by
      rw [OversizedStats.record, u64Add_of_lt room.1, u64Add_of_lt room.2]
      rfl
    simp only [Table.insert_self, recorded]
    simp only [onCpu, Table.insert_self, Option.bind_some, List.getElem?_modify_eq,
      wide.getElem_values here]
    rfl
  · simp [onCpu, same]

/-! ### What a step should do -/

end OversizedEngine

/-- The counters of a status for the given counters of RX and TX. -/
def OversizedStatus.of (rx tx : OversizedStats) : OversizedStatus :=
  ⟨rx.packets, rx.bytes, tx.packets, tx.bytes⟩

instance : LE OversizedStatus where
  le a b := a.oversizedRxPackets ≤ b.oversizedRxPackets ∧
    a.oversizedRxBytes ≤ b.oversizedRxBytes ∧ a.oversizedTxPackets ≤ b.oversizedTxPackets ∧
    a.oversizedTxBytes ≤ b.oversizedTxBytes

namespace OversizedEngine

variable {s t : OversizedEngine} {e : OversizedEvent} {items : List OversizedItem}

/-- What is published survives a step. -/
structure Keeps (s : OversizedEngine) (e : OversizedEvent) (t : OversizedEngine) : Prop where
  /-- No counter of the status falls. -/
  status : s.buildStatus ≤ t.buildStatus
  /-- No series of the metrics falls or goes away. -/
  metrics : ∀ nowMs nowMs' name v, promValue (s.payload nowMs) name = some v →
    ∃ v', promValue (t.payload nowMs') name = some v' ∧ v ≤ v'
  /-- A read without an error publishes the sums of the kernel. -/
  exact : ∀ items, e = .collectTick items → (∀ item ∈ items, item.isSome) →
    t.buildStatus = .of (t.counted false) (t.counted true) ∧
      ∀ nowMs, t.payload nowMs =
        renderPromLinesOversized (t.counted false, t.counted true) nowMs
  /-- A direction whose entry is not read keeps its numbers. -/
  kept : ∀ items, e = .collectTick items → ∀ isTx, directionOf isTx ∉ directionsRead items →
    t.counter isTx = s.counter isTx

/-- A tick that does not read the entry of a direction with published packets. -/
def Forgets (s : OversizedEngine) (e : OversizedEvent) : Prop :=
  ∃ items, e = .collectTick items ∧
    ∃ isTx, s.counter isTx ≠ {} ∧ directionOf isTx ∉ directionsRead items

theorem oversized_eq (s : OversizedEngine) : s.oversized = (s.counter false, s.counter true) := rfl

theorem buildStatus_eq (s : OversizedEngine) :
    s.buildStatus = .of (s.counter false) (s.counter true) := rfl

theorem buildStatus_le_iff :
    s.buildStatus ≤ t.buildStatus ↔ ∀ isTx, s.counter isTx ≤ t.counter isTx := by
  constructor
  · intro le isTx
    obtain ⟨rxPackets, rxBytes, txPackets, txBytes⟩ := le
    cases isTx
    · exact ⟨rxPackets, rxBytes⟩
    · exact ⟨txPackets, txBytes⟩
  · intro le
    exact ⟨(le false).1, (le false).2, (le true).1, (le true).2⟩

/-- Counters that do not fall are kept by the status and by the metrics. -/
theorem Keeps.of_le (le : ∀ isTx, s.counter isTx ≤ t.counter isTx)
    (read : ∀ items, e = .collectTick items → (∀ item ∈ items, item.isSome) →
      ∀ isTx, t.counter isTx = t.counted isTx)
    (unread : ∀ items, e = .collectTick items → ∀ isTx,
      directionOf isTx ∉ directionsRead items → t.counter isTx = s.counter isTx) :
    Keeps s e t where
  status := buildStatus_le_iff.mpr le
  metrics nowMs nowMs' _ _ h := promValue_mono (le false) (le true) nowMs nowMs' h
  exact := by
    intro items he fine
    have sums := read items he fine
    constructor
    · rw [buildStatus_eq, sums, sums]
    · intro nowMs
      rw [payload, oversized_eq, sums, sums]
  kept := unread

/-- The sums of the kernel's counters fit a `u64`, in both directions. -/
def SumsFit (s : OversizedEngine) : Prop := ∀ isTx, (s.counted isTx).Fits

theorem keeps_of_not_forgets (behind : s.Behind) (fit : s.SumsFit) (h : s.step e = some t)
    (remembers : ¬ s.Forgets e) : Keeps s e t := by
  rcases step_cases h with ⟨dir, cpu, packets, bytes, rfl, rfl⟩ | ⟨items, rfl, reads, rfl⟩
  · apply Keeps.of_le
    · intro isTx
      exact le_refl _
    · intro items he
      cases he
    · intro items he
      cases he
  · have zero : ∀ isTx, directionOf isTx ∉ directionsRead items → s.counter isTx = {} := by
      intro isTx lost
      exact not_not.mp fun published => remembers ⟨items, rfl, isTx, published, lost⟩
    apply Keeps.of_le
    · intro isTx
      rw [counter_tick]
      by_cases read : directionOf isTx ∈ directionsRead items
      · rw [reads.sumRead_of_mem read]
        exact (behind isTx).trans (fit isTx).wrap_eq.ge
      · rw [zero isTx read]
        exact OversizedStats.zero_le _
    · intro items' he fine isTx
      cases he
      rw [counter_tick, reads.sumRead_eq fine isTx]
      exact (fit isTx).wrap_eq
    · intro items' he isTx lost
      cases he
      rw [counter_tick, sumRead_of_notMem lost, zero isTx lost]
      rfl

/-- A tick that forgets a direction makes the status fall. -/
theorem falls_of_forgets (h : s.step e = some t) (forgets : s.Forgets e) :
    ¬ s.buildStatus ≤ t.buildStatus := by
  obtain ⟨items, rfl, isTx, published, lost⟩ := forgets
  intro le
  have zero : s.counter isTx ≤ t.counter isTx := buildStatus_le_iff.mp le isTx
  rcases step_cases h with ⟨dir, cpu, packets, bytes, he, -⟩ | ⟨items', he, -, rfl⟩
  · cases he
  · cases he
    rw [counter_tick, sumRead_of_notMem lost] at zero
    exact published (OversizedStats.eq_zero_of_le zero)

theorem keeps_iff (behind : s.Behind) (fit : s.SumsFit) (h : s.step e = some t) :
    Keeps s e t ↔ ¬ s.Forgets e := by
  constructor
  · intro keeps forgets
    exact falls_of_forgets h forgets keeps.status
  · exact keeps_of_not_forgets behind fit h

/-- A run in which the sums fit a `u64` keeps what it publishes exactly when, at every tick,
the entry of each direction with published packets is read. -/
theorem remembers_iff (cpus : ℕ) (map : Table UInt8 (List OversizedStats))
    (events : List OversizedEvent) {steps : List (OversizedEngine × OversizedEvent)}
    {last : OversizedEngine} (run : trace step (start cpus map) events = some (steps, last))
    (fit : ∀ p ∈ steps, p.1.SumsFit) :
    (∀ p ∈ steps, ∀ t, step p.1 p.2 = some t → Keeps p.1 p.2 t) ↔
      ∀ p ∈ steps, ¬ p.1.Forgets p.2 := by
  have kept : ∀ s e t, s.Behind → step s e = some t → t.Behind :=
    fun s e t behind h => behind.step h
  have exact : ∀ s e t, s.Behind → s.SumsFit → step s e = some t →
      (Keeps s e t ↔ ¬ s.Forgets e) :=
    fun s e t behind fit h => keeps_iff behind fit h
  exact trace_steps_iff kept exact (behind_start cpus map) run fit

/-- Two ticks have an error: one before anything of RX is published, and one on the way to
TX. -/
def unpublishedErrors : List OversizedEvent :=
  [.grow dirRx 1 1 70000, .collectTick [none], .collectTick [some (dirRx, [{}, ⟨1, 70000⟩])],
    .grow dirRx 0 2 140000, .collectTick [some (dirRx, [⟨2, 140000⟩, ⟨1, 70000⟩]), none]]

theorem remembers_iff_unpublished : ∃ steps last,
    trace step (start 2 fun _ => none) unpublishedErrors = some (steps, last) ∧
    ((∀ p ∈ steps, ∀ t, step p.1 p.2 = some t → Keeps p.1 p.2 t) ↔
      ∀ p ∈ steps, ¬ p.1.Forgets p.2) :=
  ⟨_, _, rfl, remembers_iff 2 (fun _ => none) unpublishedErrors rfl (by
    unfold SumsFit OversizedStats.Fits
    decide)⟩

/-- A packet of 70000 bytes is published, and at the next tick its entry is not read: the
status falls to zero, and the series is gone from the metrics. -/
theorem unread_entry_falls : ∃ steps before last,
    trace step (start 1 fun _ => none)
      [.grow dirRx 0 1 70000, .collectTick [some (dirRx, [⟨1, 70000⟩])], .collectTick [none]] =
      some (steps, last) ∧
    (before, .collectTick [none]) ∈ steps ∧ before.step (.collectTick [none]) = some last ∧
    before.buildStatus = ⟨1, 70000, 0, 0⟩ ∧ last.buildStatus = ⟨0, 0, 0, 0⟩ ∧
    last.counted false = ⟨1, 70000⟩ ∧
    (∀ nowMs, promValue (before.payload nowMs) "vmbw_oversized_rx_bytes_total" = some 70000 ∧
      promValue (last.payload nowMs) "vmbw_oversized_rx_bytes_total" = none) ∧
    ¬ ∀ p ∈ steps, ∀ t, step p.1 p.2 = some t → Keeps p.1 p.2 t := by
  refine ⟨_, _, _, rfl, List.mem_cons_of_mem _ (List.mem_cons_of_mem _ List.mem_cons_self),
    rfl, rfl, rfl, rfl, ?_, ?_⟩
  · intro nowMs
    rw [promValue_payload, promValue_payload]
    exact ⟨rfl, rfl⟩
  · intro keeps
    have last := keeps _ (List.mem_cons_of_mem _ (List.mem_cons_of_mem _ List.mem_cons_self)) _ rfl
    exact absurd last.status.1 (by decide)

end OversizedEngine

end VmWatcher

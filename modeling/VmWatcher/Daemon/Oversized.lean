import VmWatcher.Daemon.Metrics
import VmWatcher.Misc.Trace

/-!
# Oversized packets (`vm-bandwidth/src/daemon.rs`)

The data path counts the packets too large to police in `OVERSIZED`: an entry for each
direction, with a value for each CPU. Every collection tick reads the map and replaces the
published counters by what it has read, in `u64`s that wrap. The map is read at one
instant.
-/

namespace VmWatcher

/-- What the iterator over the map yields: an entry, or an error. -/
abbrev OversizedItem := Option (UInt8 × List OversizedStats)

/-- `slot.packets += v.packets; slot.bytes += v.bytes`. -/
def OversizedStats.add (slot v : OversizedStats) : OversizedStats :=
  ⟨u64Add slot.packets v.packets, u64Add slot.bytes v.bytes⟩

/-- What grows by so much, without a wrap. -/
instance : Add OversizedStats :=
  ⟨fun a b => ⟨a.packets + b.packets, a.bytes + b.bytes⟩⟩

/-- One round of `read_oversized`: an error is skipped. -/
def readOversizedItem (acc : OversizedStats × OversizedStats) :
    OversizedItem → OversizedStats × OversizedStats
  | none => acc
  | some (dir, values) =>
    if dir = dirRx then (values.foldl .add acc.1, acc.2)
    else if dir = dirTx then (acc.1, values.foldl .add acc.2)
    else acc

/-- `read_oversized`. -/
def readOversized (items : List OversizedItem) : OversizedStats × OversizedStats :=
  items.foldl readOversizedItem ({}, {})

/-- The oversized counters of a `Status`. -/
structure OversizedStatus where
  oversizedRxPackets : ℕ
  oversizedRxBytes : ℕ
  oversizedTxPackets : ℕ
  oversizedTxBytes : ℕ
  deriving DecidableEq, Repr

/-- The entries of the items, without the errors. -/
def entriesRead (items : List OversizedItem) : List (UInt8 × List OversizedStats) :=
  items.filterMap id

/-- The directions whose entries were read. -/
def directionsRead (items : List OversizedItem) : List UInt8 := (entriesRead items).map Prod.fst

/-- What an iterator over the map can yield: entries of the map, none of them twice, and
the entries of both directions unless there is an error. -/
def OversizedReads (map : Table UInt8 (List OversizedStats)) (items : List OversizedItem) :
    Prop :=
  (∀ entry ∈ entriesRead items, map entry.1 = some entry.2) ∧ (directionsRead items).Nodup ∧
    ((∀ item ∈ items, item.isSome) →
      ((map dirRx).isSome → dirRx ∈ directionsRead items) ∧
        ((map dirTx).isSome → dirTx ∈ directionsRead items))

instance (map : Table UInt8 (List OversizedStats)) (items : List OversizedItem) :
    Decidable (OversizedReads map items) :=
  inferInstanceAs (Decidable (_ ∧ _ ∧ _))

/-- The map, and what the engine has published of it. -/
structure OversizedEngine where
  cpus : ℕ
  /-- `OVERSIZED`: the values of a direction, one for each CPU. -/
  oversizedMap : Table UInt8 (List OversizedStats)
  /-- The published counters, RX and TX. -/
  oversized : OversizedStats × OversizedStats

inductive OversizedEvent where
  /-- The counters of a direction grow on a CPU. -/
  | grow (direction : UInt8) (cpu packets bytes : ℕ)
  /-- A collection tick, whose iterator yields these items. -/
  | collectTick (items : List OversizedItem)

namespace OversizedEngine

/-- The engine has started on the map, and has published nothing yet. -/
def start (cpus : ℕ) (map : Table UInt8 (List OversizedStats)) : OversizedEngine :=
  ⟨cpus, map, ({}, {})⟩

/-- The values of a direction; a new entry is zero on every CPU. -/
def values (s : OversizedEngine) (direction : UInt8) : List OversizedStats :=
  (s.oversizedMap direction).getD (List.replicate s.cpus {})

/-- One event. -/
def step (s : OversizedEngine) : OversizedEvent → Option OversizedEngine
  | .grow direction cpu packets bytes =>
    let grown := (s.values direction).modify cpu fun v => v + ⟨packets, bytes⟩
    some { s with oversizedMap := s.oversizedMap.insert direction grown }
  | .collectTick items =>
    if OversizedReads s.oversizedMap items then some { s with oversized := readOversized items }
    else none

/-- `build_status`, as far as it is about oversized packets. -/
def buildStatus (s : OversizedEngine) : OversizedStatus where
  oversizedRxPackets := s.oversized.1.packets
  oversizedRxBytes := s.oversized.1.bytes
  oversizedTxPackets := s.oversized.2.packets
  oversizedTxBytes := s.oversized.2.bytes

/-- What `push_metrics` sends of them. -/
def payload (s : OversizedEngine) (nowMs : ℤ) : String :=
  renderPromLinesOversized s.oversized nowMs

end OversizedEngine

end VmWatcher

import VmWatcher.Daemon.Attach
import Mathlib.Data.Finset.Dedup
import Mathlib.Data.Finset.Insert
import Mathlib.Data.Finset.Lattice.Basic

/-!
# TAP rescans and stale counters (`vm-bandwidth/src/daemon.rs`)

Entries of `TRAFFIC` whose TAP is gone are removed by the rescan that notices it. A
removal may fail at any call; the key then stays pending and is retried by every rescan.
-/

namespace VmWatcher

/-- The errors of a map operation; I/O errors tell whether their kind is `NotFound`. -/
inductive MapError where
  | keyNotFound
  | elementNotFound
  | syscallError (notFound : Bool)
  | ioError (notFound : Bool)
  | other
  deriving DecidableEq, Repr

/-- `key_already_absent`. -/
def MapError.keyAlreadyAbsent : MapError → Bool
  | keyNotFound => true
  | elementNotFound => true
  | syscallError notFound => notFound
  | ioError notFound => notFound
  | other => false

/-- What became of one key: `key_already_absent` counts as removed. -/
def removedKey : Except MapError Unit → Bool
  | .ok _ => true
  | .error e => e.keyAlreadyAbsent

section Removal

variable {M : Type} (remove : TrafficKey → M → Except MapError Unit × M)

/-- Outcome of one retry pass over the pending removals. -/
structure PendingRetryStats where
  cancelledReused : ℕ := 0
  removed : ℕ := 0
  stillPending : ℕ := 0
  deriving DecidableEq, Repr

/-- One key in the loop of `retry_traffic`. -/
def retryKey (live : List UInt32) (r : Finset TrafficKey × PendingRetryStats × M)
    (key : TrafficKey) : Finset TrafficKey × PendingRetryStats × M :=
  let (pending, stats, map) := r
  if key.ifindex ∈ live then
    (pending, { stats with cancelledReused := stats.cancelledReused + 1 }, map)
  else
    let answer := remove key map
    if removedKey answer.1 then (pending, { stats with removed := stats.removed + 1 }, answer.2)
    else
      (insert key pending, { stats with stillPending := stats.stillPending + 1 }, answer.2)

/-- `PendingRemovals::retry_traffic`, going through the pending keys in the given order. -/
def retryTraffic (live : List UInt32) (keys : List TrafficKey) (map : M) :
    Finset TrafficKey × PendingRetryStats × M :=
  keys.foldl (retryKey remove live) (∅, {}, map)

/-- Outcome of a bulk removal. -/
structure RemovalStats where
  attempted : ℕ
  removed : ℕ := 0
  failed : ℕ := 0
  failedKeys : List TrafficKey := []
  deriving DecidableEq, Repr

/-- One key in the loop of `remove_counter_keys`. -/
def removeCounterKey (r : RemovalStats × M) (key : TrafficKey) : RemovalStats × M :=
  let (stats, map) := r
  let answer := remove key map
  if removedKey answer.1 then ({ stats with removed := stats.removed + 1 }, answer.2)
  else
    ({ stats with failed := stats.failed + 1, failedKeys := stats.failedKeys ++ [key] }, answer.2)

/-- `remove_counter_keys`. -/
def removeCounterKeys (keys : List TrafficKey) (map : M) : RemovalStats × M :=
  keys.foldl (removeCounterKey remove) ({ attempted := keys.length }, map)

end Removal

/-- The `TRAFFIC` map, and the keys that the current rescan called `remove` on. -/
structure TrafficMap where
  entries : Table TrafficKey TrafficValue
  calls : List TrafficKey

/-- `remove`, when the kernel fails it for the given keys. -/
def TrafficMap.remove (fails : TrafficKey → Option MapError) (key : TrafficKey) (map : TrafficMap) :
    Except MapError Unit × TrafficMap :=
  let called := { map with calls := key :: map.calls }
  match fails key with
  | some e => (.error e, called)
  | none =>
    match map.entries key with
    | none => (.error (.syscallError true), called)
    | some _ => (.ok (), { called with entries := map.entries.remove key })

/-- How far a rescan has come. -/
inductive RescanPhase where
  | idle
  | reconciled
  | retried
  deriving DecidableEq, Repr

/-- What a rescan works on. -/
structure Rescan where
  /-- What is attached: `manager.taps()`. -/
  attached : List Tap
  /-- What the latest rescan found attached. -/
  taps : List Tap
  traffic : TrafficMap
  pendingRemoves : Finset TrafficKey
  phase : RescanPhase

namespace Rescan

/-- The interface of the key is attached. -/
def Live (s : Rescan) (key : TrafficKey) : Prop := key.ifindex ∈ s.attached.map Tap.ifindex

/-- The first part of `rescan_taps`: the TAPs are reconciled. -/
def reconcile (newTaps : List Tap) (s : Rescan) : Rescan :=
  { s with attached := newTaps, traffic := { s.traffic with calls := [] }, phase := .reconciled }

/-- The second part of `rescan_taps`: the pending removals are retried. -/
def retry (fails : TrafficKey → Option MapError) (keys : List TrafficKey) (s : Rescan) : Rescan :=
  let r := retryTraffic (TrafficMap.remove fails) (s.attached.map Tap.ifindex) keys s.traffic
  { s with pendingRemoves := r.1, traffic := r.2.2, phase := .retried }

/-- The last part of `rescan_taps`: the keys of vanished TAPs are pruned, if the set of
interfaces has changed. -/
def prune (fails : TrafficKey → Option MapError) (keys : List TrafficKey) (s : Rescan) : Rescan :=
  let newIfindexes := s.attached.map Tap.ifindex
  let oldIfindexes := s.taps.map Tap.ifindex
  let s :=
    if newIfindexes.toFinset ≠ oldIfindexes.toFinset then
      let stale := keys.filter fun key => key.ifindex ∉ newIfindexes && key ∉ s.pendingRemoves
      let pruned := removeCounterKeys (TrafficMap.remove fails) stale s.traffic
      { s with
        pendingRemoves := s.pendingRemoves ∪ pruned.1.failedKeys.toFinset
        traffic := pruned.2 }
    else s
  { s with taps := s.attached, phase := .idle }

/-- A failure is not an absent key. -/
def Failures (fails : TrafficKey → Option MapError) : Prop :=
  ∀ key e, fails key = some e → e.keyAlreadyAbsent = false

/-- The data path counts for a TAP that is attached. -/
def count (key : TrafficKey) (v : TrafficValue) (s : Rescan) : Rescan :=
  { s with traffic := { s.traffic with entries := s.traffic.entries.insert key v } }

/-- An idle entry is evicted. -/
def evict (key : TrafficKey) (s : Rescan) : Rescan :=
  { s with traffic := { s.traffic with entries := s.traffic.entries.remove key } }

/-- Any run of rescans, while the data path counts at any point. The set of attached TAPs
changes arbitrarily from one rescan to the next, and any removal may fail. -/
inductive Run : Rescan → Prop where
  | start {taps : List Tap} : Run ⟨taps, taps, ⟨Table.empty, []⟩, ∅, .idle⟩
  | count {s : Rescan} {key : TrafficKey} (v : TrafficValue) : Run s → s.Live key →
      Run (s.count key v)
  | evict {s : Rescan} (key : TrafficKey) : Run s → s.phase = .idle → Run (s.evict key)
  | reconcile {s : Rescan} (newTaps : List Tap) : Run s → s.phase = .idle →
      Run (s.reconcile newTaps)
  | retry {s : Rescan} {fails : TrafficKey → Option MapError} {keys : List TrafficKey} : Run s →
      s.phase = .reconciled → Failures fails → Visits keys (· ∈ s.pendingRemoves) →
      Run (s.retry fails keys)
  | prune {s : Rescan} {fails : TrafficKey → Option MapError} {keys : List TrafficKey} : Run s →
      s.phase = .retried → Failures fails →
      Visits keys (fun key => (s.traffic.entries key).isSome) → Run (s.prune fails keys)

end Rescan

end VmWatcher

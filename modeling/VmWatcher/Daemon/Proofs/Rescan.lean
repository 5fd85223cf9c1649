import VmWatcher.Daemon.Rescan

/-!
# Counters of dead TAPs are reclaimed, live ones left alone

A key whose TAP is gone is removed by the rescan that sees the TAP go, or stays pending
until it is removed or its interface index is in use again.
-/

namespace VmWatcher

/-! ### One removal -/

namespace TrafficMap

variable {fails : TrafficKey → Option MapError} {map : TrafficMap} {key key' : TrafficKey}

theorem remove_calls : (map.remove fails key).2.calls = key :: map.calls := by
  unfold remove
  dsimp only
  split
  · rfl
  · split <;> rfl

theorem remove_entries_of_ne (h : key' ≠ key) :
    (map.remove fails key).2.entries key' = map.entries key' := by
  unfold remove
  dsimp only
  split
  · rfl
  · split
    · rfl
    · exact Table.remove_of_ne h

theorem remove_entries_none (h : map.entries key' = none) :
    (map.remove fails key).2.entries key' = none := by
  by_cases hk : key' = key
  · subst hk
    unfold remove
    dsimp only
    split
    · exact h
    · rw [h]
      exact h
  · rw [remove_entries_of_ne hk]
    exact h

/-- A key that counts as removed is not in the map any more. -/
theorem remove_gone (failures : Rescan.Failures fails)
    (h : removedKey (map.remove fails key).1 = true) :
    (map.remove fails key).2.entries key = none := by
  unfold remove at h ⊢
  dsimp only at h ⊢
  cases hf : fails key with
  | some e =>
    rw [hf] at h
    rw [removedKey, failures key e hf] at h
    cases h
  | none =>
    dsimp only
    cases he : map.entries key with
    | none => exact he
    | some v => exact Table.remove_self

end TrafficMap

/-! ### A pass over keys -/

/-- A pass has dealt with the keys `done`: it called `remove` on dead keys only, and those
of them that are still in the map are kept to be retried. -/
structure Swept (dead : TrafficKey → Prop) (before : TrafficMap) (done : List TrafficKey)
    (kept : TrafficKey → Prop) (map : TrafficMap) : Prop where
  calls : ∀ key ∈ map.calls, dead key
  kept_dead : ∀ key, kept key → dead key
  entries : ∀ key ∈ done, dead key → (map.entries key).isSome → kept key
  live : ∀ key, ¬ dead key → map.entries key = before.entries key
  shrinks : ∀ key, (map.entries key).isSome → (before.entries key).isSome

namespace Swept

variable {dead kept : TrafficKey → Prop} {before map : TrafficMap} {done : List TrafficKey}
variable {fails : TrafficKey → Option MapError} {key : TrafficKey}

theorem start (calls : ∀ key ∈ before.calls, dead key) (hkept : ∀ key, kept key → dead key) :
    Swept dead before [] kept before :=
  ⟨calls, hkept, by simp, fun _ _ => rfl, fun _ h => h⟩

/-- A live key is passed over. -/
theorem skip (h : Swept dead before done kept map) (live : ¬ dead key) :
    Swept dead before (key :: done) kept map where
  calls := h.calls
  kept_dead := h.kept_dead
  entries key' hmem hdead hsome := by
    rcases List.mem_cons.mp hmem with rfl | hmem
    · exact absurd hdead live
    · exact h.entries key' hmem hdead hsome
  live := h.live
  shrinks := h.shrinks

/-- A call on a dead key removes at most that key. -/
theorem called (h : Swept dead before done kept map) (hdead : dead key) :
    Swept dead before done kept (map.remove fails key).2 := by
  have stays : ∀ key', ((map.remove fails key).2.entries key').isSome →
      (map.entries key').isSome := by
    intro key' hsome
    cases he : map.entries key' with
    | none => simp [TrafficMap.remove_entries_none he] at hsome
    | some v => rfl
  refine ⟨?_, h.kept_dead, fun key' hmem hd hsome => h.entries key' hmem hd (stays key' hsome), ?_,
    fun key' hsome => h.shrinks key' (stays key' hsome)⟩
  · intro key' hmem
    rw [TrafficMap.remove_calls] at hmem
    rcases List.mem_cons.mp hmem with rfl | hmem
    · exact hdead
    · exact h.calls key' hmem
  · intro key' hlive
    have hne : key' ≠ key := fun heq => hlive (heq ▸ hdead)
    rw [TrafficMap.remove_entries_of_ne hne, h.live key' hlive]

theorem removed (h : Swept dead before done kept map) (hdead : dead key)
    (failures : Rescan.Failures fails) (gone : removedKey (map.remove fails key).1 = true) :
    Swept dead before (key :: done) kept (map.remove fails key).2 where
  calls := (h.called hdead).calls
  kept_dead := h.kept_dead
  entries key' hmem hd hsome := by
    rcases List.mem_cons.mp hmem with rfl | hmem
    · simp [TrafficMap.remove_gone failures gone] at hsome
    · exact (h.called hdead).entries key' hmem hd hsome
  live := (h.called hdead).live
  shrinks := (h.called hdead).shrinks

theorem failed (h : Swept dead before done kept map) (hdead : dead key) :
    Swept dead before (key :: done) (fun k => k = key ∨ kept k) (map.remove fails key).2 where
  calls := (h.called hdead).calls
  kept_dead key' hkept := by
    rcases hkept with rfl | hkept
    · exact hdead
    · exact h.kept_dead key' hkept
  entries key' hmem hd hsome := by
    rcases List.mem_cons.mp hmem with rfl | hmem
    · exact Or.inl rfl
    · exact Or.inr ((h.called hdead).entries key' hmem hd hsome)
  live := (h.called hdead).live
  shrinks := (h.called hdead).shrinks

theorem congr {kept' : TrafficKey → Prop} (h : Swept dead before done kept map)
    (same : ∀ key, kept' key ↔ kept key) : Swept dead before done kept' map := by
  rw [show kept' = kept from funext fun key => propext (same key)]
  exact h

end Swept

variable {fails : TrafficKey → Option MapError} {live : List UInt32} {before : TrafficMap}

/-- `retry_traffic` keeps what it could not remove, and calls `remove` on no live key. -/
theorem retryKeys_swept (failures : Rescan.Failures fails) (keys done : List TrafficKey)
    (r : Finset TrafficKey × PendingRetryStats × TrafficMap)
    (h : Swept (fun key => key.ifindex ∉ live) before done (· ∈ r.1) r.2.2) :
    let r' := keys.foldl (retryKey (TrafficMap.remove fails) live) r
    Swept (fun key => key.ifindex ∉ live) before (keys.reverseAux done) (· ∈ r'.1) r'.2.2 := by
  induction keys generalizing r done with
  | nil => exact h
  | cons key keys ih =>
    refine ih (key :: done) _ ?_
    obtain ⟨pending, stats, map⟩ := r
    unfold retryKey
    by_cases hlive : key.ifindex ∈ live
    · simp only [hlive, if_true]
      exact h.skip (not_not.mpr hlive)
    · simp only [hlive, if_false]
      cases gone : removedKey (map.remove fails key).1 with
      | true => exact h.removed hlive failures gone
      | false => exact (h.failed hlive).congr fun key' => Finset.mem_insert

/-- `remove_counter_keys` reports the keys that it could not remove. -/
theorem removeCounterKeys_swept (failures : Rescan.Failures fails) {dead : TrafficKey → Prop}
    (keys done : List TrafficKey) (hdead : ∀ key ∈ keys, dead key) (r : RemovalStats × TrafficMap)
    (h : Swept dead before done (· ∈ r.1.failedKeys) r.2) :
    let r' := keys.foldl (removeCounterKey (TrafficMap.remove fails)) r
    Swept dead before (keys.reverseAux done) (· ∈ r'.1.failedKeys) r'.2 := by
  induction keys generalizing r done with
  | nil => exact h
  | cons key keys ih =>
    refine ih (key :: done) (fun k hk => hdead k (List.mem_cons_of_mem _ hk)) _ ?_
    obtain ⟨stats, map⟩ := r
    have hkey : dead key := hdead key List.mem_cons_self
    unfold removeCounterKey
    dsimp only
    cases gone : removedKey (map.remove fails key).1 with
    | true => exact h.removed hkey failures gone
    | false =>
      apply (h.failed hkey).congr
      intro key'
      simp [or_comm]

/-! ### Runs -/

namespace Rescan

/-- Every key in the map is live, or pending, or belongs to a TAP of the latest rescan. -/
def Tracked (s : Rescan) : Prop :=
  ∀ key, (s.traffic.entries key).isSome →
    s.Live key ∨ key ∈ s.pendingRemoves ∨ key.ifindex ∈ s.taps.map Tap.ifindex

/-- No pending key is live. -/
def PendingDead (s : Rescan) : Prop := ∀ key ∈ s.pendingRemoves, ¬ s.Live key

/-- The current rescan, or the latest, called `remove` on no live key. -/
def CallsDead (s : Rescan) : Prop := ∀ key ∈ s.traffic.calls, ¬ s.Live key

/-- What holds between any two steps, in each phase of a rescan. -/
structure Ok (s : Rescan) : Prop where
  tracked : s.Tracked
  calls : s.CallsDead
  pending : s.phase ≠ .reconciled → s.PendingDead
  settled : s.phase = .idle → ∀ i, i ∈ s.attached.map Tap.ifindex ↔ i ∈ s.taps.map Tap.ifindex

variable {s : Rescan}

theorem ok_start {taps : List Tap} : Ok ⟨taps, taps, ⟨Table.empty, []⟩, ∅, .idle⟩ where
  tracked := by simp [Tracked]
  calls := by simp [CallsDead]
  pending _ := by simp [PendingDead]
  settled _ _ := Iff.rfl

theorem Ok.count (h : s.Ok) {key : TrafficKey} (live : s.Live key) (v : TrafficValue) :
    (s.count key v).Ok where
  tracked key' hsome := by
    by_cases hk : key' = key
    · subst hk
      exact Or.inl live
    · exact h.tracked key' (by simpa [Rescan.count, hk] using hsome)
  calls := h.calls
  pending := h.pending
  settled := h.settled

theorem Ok.evict (h : s.Ok) (key : TrafficKey) : (s.evict key).Ok where
  tracked key' hsome := by
    by_cases hk : key' = key
    · simp [Rescan.evict, hk] at hsome
    · exact h.tracked key' (by simpa [Rescan.evict, hk] using hsome)
  calls := h.calls
  pending := h.pending
  settled := h.settled

/-- When the attached TAPs change, the live keys of before are those of the latest rescan. -/
theorem Ok.reconcile (h : s.Ok) (idle : s.phase = .idle) (newTaps : List Tap) :
    (s.reconcile newTaps).Ok where
  tracked key hsome := by
    rcases h.tracked key hsome with live | hrest
    · exact Or.inr (Or.inr ((h.settled idle key.ifindex).mp live))
    · exact Or.inr hrest
  calls := by simp [CallsDead, Rescan.reconcile]
  pending hphase := absurd rfl hphase
  settled hphase := by cases hphase

theorem Ok.retry (h : s.Ok) {fails : TrafficKey → Option MapError} {keys : List TrafficKey}
    (failures : Failures fails) (visits : Visits keys (· ∈ s.pendingRemoves)) :
    (s.retry fails keys).Ok := by
  have start : Swept (fun key => key.ifindex ∉ s.attached.map Tap.ifindex) s.traffic []
      (· ∈ (∅ : Finset TrafficKey)) s.traffic := .start h.calls (by simp)
  have swept := retryKeys_swept failures keys [] (∅, {}, s.traffic) start
  refine ⟨fun key hsome => ?_, swept.calls, fun _ => swept.kept_dead, fun hphase => by cases hphase⟩
  rcases h.tracked key (swept.shrinks key hsome) with live | hpending | old
  · exact Or.inl live
  · by_cases live : s.Live key
    · exact Or.inl live
    · have visited : key ∈ keys.reverseAux [] := by
        simpa using (visits.mem_iff key).mpr hpending
      exact Or.inr (Or.inl (swept.entries key visited live hsome))
  · exact Or.inr (Or.inr old)

theorem Ok.prune (h : s.Ok) (retried : s.phase = .retried) {fails : TrafficKey → Option MapError}
    {keys : List TrafficKey} (failures : Failures fails)
    (visits : Visits keys fun key => (s.traffic.entries key).isSome) : (s.prune fails keys).Ok := by
  have pending : s.PendingDead := h.pending (by simp [retried])
  unfold Rescan.prune
  dsimp only
  split
  · next changed =>
    set stale := keys.filter fun key =>
      key.ifindex ∉ s.attached.map Tap.ifindex && key ∉ s.pendingRemoves with hstale
    have mem_stale : ∀ key, key ∈ stale ↔
        (s.traffic.entries key).isSome ∧ ¬ s.Live key ∧ key ∉ s.pendingRemoves := by
      intro key
      rw [hstale, List.mem_filter, visits.mem_iff]
      simp [Live]
    have swept := removeCounterKeys_swept failures stale []
      (fun key hmem => ((mem_stale key).mp hmem).2.1)
      ({ attempted := stale.length }, s.traffic) (.start h.calls (by simp))
    refine ⟨?_, swept.calls, ?_, fun _ _ => Iff.rfl⟩
    · intro key hsome
      by_cases live : s.Live key
      · exact Or.inl live
      · refine Or.inr (Or.inl (Finset.mem_union.mpr ?_))
        by_cases hpending : key ∈ s.pendingRemoves
        · exact Or.inl hpending
        · have visited : key ∈ stale.reverseAux [] := by
            simpa using (mem_stale key).mpr ⟨swept.shrinks key hsome, live, hpending⟩
          exact Or.inr (List.mem_toFinset.mpr (swept.entries key visited live hsome))
    · intro _ key hmem
      rcases Finset.mem_union.mp hmem with hold | hfailed
      · exact pending key hold
      · exact swept.kept_dead key (List.mem_toFinset.mp hfailed)
  · next same =>
    rw [not_not] at same
    refine ⟨fun key hsome => ?_, h.calls, fun _ => pending, fun _ _ => Iff.rfl⟩
    rcases h.tracked key hsome with live | hpending | old
    · exact Or.inl live
    · exact Or.inr (Or.inl hpending)
    · refine Or.inl ?_
      rw [Live, ← List.mem_toFinset, same, List.mem_toFinset]
      exact old

theorem Run.ok (h : Run s) : s.Ok := by
  induction h with
  | start => exact ok_start
  | count v _ live ih => exact ih.count live v
  | evict key _ _ ih => exact ih.evict key
  | reconcile newTaps _ idle ih => exact ih.reconcile idle newTaps
  | retry _ _ failures visits ih => exact ih.retry failures visits
  | prune _ retried failures visits ih => exact ih.prune retried failures visits

/-- Whenever no rescan is under way, every key whose interface is not attached is pending
and no key of an attached interface is. No rescan calls `remove` on a key of an attached
interface, at any point. -/
theorem dead_keys_pending (h : Run s) :
    (s.phase = .idle →
      (∀ key, (s.traffic.entries key).isSome → ¬ s.Live key → key ∈ s.pendingRemoves) ∧
      ∀ key ∈ s.pendingRemoves, ¬ s.Live key) ∧
    ∀ key ∈ s.traffic.calls, ¬ s.Live key := by
  refine ⟨fun idle => ⟨?_, h.ok.pending (by simp [idle])⟩, h.ok.calls⟩
  intro key hsome dead
  rcases h.ok.tracked key hsome with live | hpending | old
  · exact absurd live dead
  · exact hpending
  · exact absurd ((h.ok.settled idle key.ifindex).mpr old) dead

/-- One TAP has counted for one address. -/
def countedRun : Rescan :=
  count ⟨3, 1⟩ { rxBytes := 100 } ⟨[⟨"tap0", 3⟩], [⟨"tap0", 3⟩], ⟨Table.empty, []⟩, ∅, .idle⟩

/-- The TAP is gone at the next rescan, and the removal of its key fails. -/
def failedRun : Rescan :=
  ((countedRun.reconcile []).retry (fun _ => none) []).prune (fun _ => some .other) [⟨3, 1⟩]

theorem failedRun_reached : Run failedRun := by
  have counted : Run countedRun := Run.start.count _ (by simp [Live])
  have retried : Run ((countedRun.reconcile []).retry (fun _ => none) []) :=
    (counted.reconcile [] rfl).retry rfl (fun _ _ h => by cases h)
      ⟨List.nodup_nil, by simp [countedRun, Rescan.count, Rescan.reconcile]⟩
  have failures : Failures fun _ => some .other := by
    rintro key e h
    obtain rfl := Option.some.inj h
    rfl
  refine retried.prune rfl failures ⟨List.nodup_singleton _, ?_⟩
  intro key
  by_cases hk : key = ⟨3, 1⟩
  · simp [hk, countedRun, Rescan.count, Rescan.reconcile, Rescan.retry, retryTraffic]
  · simp [hk, countedRun, Rescan.count, Rescan.reconcile, Rescan.retry, retryTraffic]

theorem dead_keys_pending_failed :
    (failedRun.phase = .idle →
      (∀ key, (failedRun.traffic.entries key).isSome → ¬ failedRun.Live key →
        key ∈ failedRun.pendingRemoves) ∧
      ∀ key ∈ failedRun.pendingRemoves, ¬ failedRun.Live key) ∧
    ∀ key ∈ failedRun.traffic.calls, ¬ failedRun.Live key :=
  dead_keys_pending failedRun_reached

end Rescan

end VmWatcher

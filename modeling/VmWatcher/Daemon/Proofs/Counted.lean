import VmWatcher.Daemon.Metering
import VmWatcher.Ebpf.Proofs.Classifier

/-!
# The classifiers count for the collector

Whatever packet the classifiers handle, as long as no counter wraps, what they write to the
counter maps is steps of a metering run (`Run.handled`), so what holds of every such run
holds of the maps they share with the collector.
-/

namespace VmWatcher

namespace Metering

/-- The counter maps of the data path are the ones that the collector polls. -/
structure Holds (s : Metering) (m : EbpfMaps) : Prop where
  traffic : s.traffic.entries = m.counters.traffic
  traffic6 : s.traffic6.entries = m.counters.traffic6
  policer : s.policer.entries = m.limits.policerStats

variable {gone : UInt32 → Prop} {polls : PollInputs → Prop} {s : Metering} {m : EbpfMaps}
variable {inserts : Inserts}

/-- No counter of the maps is within a packet of wrapping. -/
structure HasRoom (m : EbpfMaps) : Prop where
  traffic : ∀ k c, Tally.of (m.counters.traffic k) c + 2 ^ 32 ≤ 2 ^ 64
  traffic6 : ∀ k c, Tally.of (m.counters.traffic6 k) c + 2 ^ 32 ≤ 2 ^ 64
  policer : ∀ k c, Tally.of (m.limits.policerStats k) c + 2 ^ 32 ≤ 2 ^ 64

theorem le_u64Add {x y : ℕ} (room : x + 2 ^ 32 ≤ 2 ^ 64) (short : y < 2 ^ 32) :
    x ≤ u64Add x y := by
  rw [u64Add_of_lt (by omega)]
  exact Nat.le_add_right x y

theorem get_count_le (value : TrafficValue) (isTx : Bool) {len : ℕ} (c : TrafficCounter)
    (room : Tally.get value c + 2 ^ 32 ≤ 2 ^ 64) (short : len < 2 ^ 32) :
    Tally.get value c ≤ Tally.get (value.count isTx len) c := by
  have one : 1 < 2 ^ 32 := by norm_num
  cases isTx with
  | true =>
    cases c with
    | rxBytes => exact le_rfl
    | rxPackets => exact le_rfl
    | txBytes => exact le_u64Add room short
    | txPackets => exact le_u64Add room one
  | false =>
    cases c with
    | rxBytes => exact le_u64Add room short
    | rxPackets => exact le_u64Add room one
    | txBytes => exact le_rfl
    | txPackets => exact le_rfl

theorem get_record_le (stats : PolicerStats) (passed : Bool) {len : ℕ} (c : PolicerCounter)
    (room : Tally.get stats c + 2 ^ 32 ≤ 2 ^ 64) (short : len < 2 ^ 32) :
    Tally.get stats c ≤ Tally.get (stats.record passed len) c := by
  have one : 1 < 2 ^ 32 := by norm_num
  cases passed with
  | true =>
    cases c with
    | passedBytes => exact le_u64Add room short
    | passedPackets => exact le_u64Add room one
    | droppedBytes => exact le_rfl
    | droppedPackets => exact le_rfl
  | false =>
    cases c with
    | passedBytes => exact le_rfl
    | passedPackets => exact le_rfl
    | droppedBytes => exact le_u64Add room short
    | droppedPackets => exact le_u64Add room one

/-- The data path may write to the maps: they are again those of a run, with the collector
as it was. -/
def Reaches (gone : UInt32 → Prop) (polls : PollInputs → Prop) (s : Metering) (m : EbpfMaps) :
    Prop :=
  ∃ s', Run gone polls s' ∧ s'.Holds m ∧ s'.collector = s.collector

theorem Run.counted (run : Run gone polls s) (holds : s.Holds m) (room : HasRoom m)
    (ctx : TcContext) (ipv4 : UInt32) (isTx : Bool) :
    Reaches gone polls s (m.count inserts ctx ipv4 isTx) := by
  unfold EbpfMaps.count
  dsimp only
  cases entryOrInsert m.counters.traffic inserts.traffic ⟨ctx.ifindex, ipv4⟩ {} with
  | none => exact ⟨s, run, holds, rfl⟩
  | some _ =>
    let key : TrafficKey := ⟨ctx.ifindex, ipv4⟩
    let value := ((s.traffic.entries key).getD {}).count isTx ctx.len.toNat
    refine ⟨{ s with traffic := s.traffic.grow key value }, run.count ?_, ?_, rfl⟩
    · intro c
      exact get_count_le _ isTx c (holds.traffic ▸ room.traffic key c) ctx.len.toNat_lt
    · refine ⟨?_, holds.traffic6, holds.policer⟩
      show s.traffic.entries.insert key value = _
      simp only [value, holds.traffic]
      rfl

theorem Run.counted6 (run : Run gone polls s) (holds : s.Holds m) (room : HasRoom m)
    (ctx : TcContext) (isTx : Bool) : Reaches gone polls s (m.count6 inserts ctx isTx) := by
  unfold EbpfMaps.count6
  cases entryOrInsert m.counters.traffic6 inserts.traffic6 ctx.ifindex {} with
  | none => exact ⟨s, run, holds, rfl⟩
  | some _ =>
    let value := ((s.traffic6.entries ctx.ifindex).getD {}).count isTx ctx.len.toNat
    refine ⟨{ s with traffic6 := s.traffic6.grow ctx.ifindex value }, run.count6 ?_, ?_, rfl⟩
    · intro c
      exact get_count_le _ isTx c (holds.traffic6 ▸ room.traffic6 ctx.ifindex c) ctx.len.toNat_lt
    · refine ⟨holds.traffic, ?_, holds.policer⟩
      show s.traffic6.entries.insert ctx.ifindex value = _
      simp only [value, holds.traffic6]
      rfl

theorem Run.recorded (run : Run gone polls s) (holds : s.Holds m)
    (room : ∀ k c, Tally.of (m.limits.policerStats k) c + 2 ^ 32 ≤ 2 ^ 64) (key : LimitKey)
    {len : ℕ} (short : len < 2 ^ 32) (passed : Bool) :
    Reaches gone polls s (m.recordVerdict inserts key len passed) := by
  unfold EbpfMaps.recordVerdict
  cases hentry : entryOrInsert m.limits.policerStats inserts.policerStats key ⟨0, 0, 0, 0⟩ with
  | none => exact ⟨s, run, holds, rfl⟩
  | some stats =>
    have entry : stats = (m.limits.policerStats key).getD ⟨0, 0, 0, 0⟩ := by
      unfold entryOrInsert at hentry
      cases hstats : m.limits.policerStats key <;> rw [hstats] at hentry <;> grind
    let value := stats.record passed len
    refine ⟨{ s with policer := s.policer.grow key value }, run.verdict ?_,
      ⟨holds.traffic, holds.traffic6, ?_⟩, rfl⟩
    · intro c
      rw [holds.policer]
      simp only [value, entry]
      exact get_record_le _ passed c (room key c) short
    · show s.policer.entries.insert key value = _
      rw [holds.policer]

theorem Run.policed (run : Run gone polls s) (holds : s.Holds m)
    (room : ∀ k c, Tally.of (m.limits.policerStats k) c + 2 ^ 32 ≤ 2 ^ 64) (ipv4 : UInt32)
    (direction : UInt8) {len : ℕ} (short : len < 2 ^ 32) (now : ℕ) :
    Reaches gone polls s (m.police inserts ipv4 direction len now).1 := by
  rcases EbpfMaps.police_cases inserts ipv4 direction len now m with
    ⟨policy, -, -, result⟩ | ⟨-, result⟩ | ⟨-, result⟩
  · rw [result, EbpfMaps.judged]
    apply run.recorded
    · refine ⟨holds.traffic, holds.traffic6, ?_⟩
      rw [holds.policer]
      cases artifactOf policy.algorithm <;> rfl
    · cases artifactOf policy.algorithm <;> exact room
    · exact short
  · rw [result]
    refine ⟨s, run, ?_, rfl⟩
    dsimp only [EbpfMaps.recordOversized]
    split
    · exact holds
    · exact ⟨holds.traffic, holds.traffic6, holds.policer⟩
  · rw [result]
    exact ⟨s, run, holds, rfl⟩

/-- Every packet is steps of a metering run, whatever keys could be inserted. -/
theorem Run.handled (run : Run gone polls s) (holds : s.Holds m) (room : HasRoom m)
    (host : ByteOrder) (ctx : TcContext) (isTx : Bool) (now : ℕ) [DecidablePred (m.limits.monitors host)] :
    Reaches gone polls s (m.handle host inserts ctx isTx now).1 := by
  by_cases monitored : ∃ ipv4, ctx.Flow isTx ipv4 ∧ m.limits.monitors host ipv4
  · obtain ⟨ipv4, flow, monitored⟩ := monitored
    rw [EbpfMaps.handle_flow flow monitored]
    have counted : Reaches gone polls s (m.count inserts ctx ipv4 isTx) :=
      run.counted holds room ctx ipv4 isTx
    obtain ⟨s', run', holds', collector'⟩ := counted
    have left : ∀ k c, Tally.of ((m.count inserts ctx ipv4 isTx).limits.policerStats k) c + 2 ^ 32 ≤
        2 ^ 64 := by
      rw [EbpfMaps.count_limits]
      exact room.policer
    obtain ⟨s'', run'', holds'', collector''⟩ :=
      run'.policed holds' left ipv4 (directionOf isTx) ctx.len.toNat_lt now
    exact ⟨s'', run'', holds'', collector''.trans collector'⟩
  · have other : ∀ ipv4, ctx.Flow isTx ipv4 → ¬ m.limits.monitors host ipv4 :=
      fun ipv4 flow hit => monitored ⟨ipv4, flow, hit⟩
    rcases EbpfMaps.handle_other other with result | result
    · rw [result]
      exact ⟨s, run, holds, rfl⟩
    · rw [result]
      exact run.counted6 holds room ctx isTx

end Metering

end VmWatcher

import VmWatcher.Common
import VmWatcher.Misc.Table

/-!
# The traffic counters (`vm-bandwidth-ebpf/src/main.rs`)

What the data path counts, summed over the CPUs: per TAP and address for IPv4, per TAP
for IPv6. The per-CPU slots and the sum userspace takes of them are `u64` and wrap, so the
sum is kept modulo 2^64. Userspace removes entries, and the data path recreates them at
zero.
-/

namespace VmWatcher

/-- The counter maps. -/
structure Counters where
  /-- `TRAFFIC`. -/
  traffic : Table TrafficKey TrafficValue := Table.empty
  /-- `TRAFFIC6`. -/
  traffic6 : Table UInt32 TrafficValue := Table.empty

/-- One packet on top of a counter set. -/
def TrafficValue.count (value : TrafficValue) (isTx : Bool) (len : ℕ) : TrafficValue :=
  if isTx then
    { value with
      txBytes := u64Add value.txBytes len
      txPackets := u64Add value.txPackets 1 }
  else
    { value with
      rxBytes := u64Add value.rxBytes len
      rxPackets := u64Add value.rxPackets 1 }

namespace Counters

/-- `count`, when the map has room for the key. -/
def count (key : TrafficKey) (isTx : Bool) (len : ℕ) (c : Counters) : Counters :=
  { c with traffic := c.traffic.insert key (((c.traffic key).getD {}).count isTx len) }

/-- `count6`, when the map has room for the key. -/
def count6 (ifindex : UInt32) (isTx : Bool) (len : ℕ) (c : Counters) : Counters :=
  { c with traffic6 := c.traffic6.insert ifindex (((c.traffic6 ifindex).getD {}).count isTx len) }

end Counters

end VmWatcher

import VmWatcher.Misc.TracedArith

/-!
# Data shared by the data path and the daemon (`vm-bandwidth-common/src/lib.rs`)

The tags and the map keys and values of the limit maps. Every `u64` is a natural
number; counters are added with `u64Add`, and where the policers could wrap they compute
in `Traced`. Padding bytes and the spin-lock word are carried by no computation and are
left out.
-/

namespace VmWatcher

/-- `MAX_POLICED_LEN`: the largest frame the policer judges. -/
def maxPolicedLen : ℕ := 65535

/-- `DIR_RX`: the packet is being received by the VM. -/
def dirRx : UInt8 := 0

/-- `DIR_TX`: the packet is being sent by the VM. -/
def dirTx : UInt8 := 1

def algoTokenBucket : UInt32 := 0
def algoLeakyBucket : UInt32 := 1
def algoFixedWindow : UInt32 := 2
def algoSlidingWindowCounter : UInt32 := 3
def algoSlidingWindowLog : UInt32 := 4
def algoGcra : UInt32 := 5

/-- `u64::MAX`. -/
def u64Max : ℕ := 18446744073709551615

/-- `+=` on a `u64`, in a release build. -/
def u64Add (x y : ℕ) : ℕ := (x + y) % 2 ^ 64

theorem u64Add_lt (x y : ℕ) : u64Add x y < 2 ^ 64 := Nat.mod_lt _ (Nat.two_pow_pos 64)

theorem u64Add_le (x y : ℕ) : u64Add x y ≤ x + y := Nat.mod_le _ _

theorem u64Add_of_lt {x y : ℕ} (h : x + y < 2 ^ 64) : u64Add x y = x + y := Nat.mod_eq_of_lt h

theorem u64Add_zero {x : ℕ} (h : x < 2 ^ 64) : u64Add x 0 = x := u64Add_of_lt h

theorem u64Add_mod (x y : ℕ) : u64Add x (y % 2 ^ 64) = u64Add x y := Nat.add_mod_mod _ _ _

theorem u64Add_u64Add (x y z : ℕ) : u64Add (u64Add x y) z = u64Add x (y + z) := by
  simp [u64Add, Nat.add_assoc]

/-- `u64::saturating_add`. -/
def u64SaturatingAdd (x y : ℕ) : ℕ := min (x + y) u64Max

/-- `u64::saturating_mul`. -/
def u64SaturatingMul (x y : ℕ) : ℕ := min (x * y) u64Max

/-- Key of the `TRAFFIC` map: one counter set per (interface, IPv4) pair. -/
structure TrafficKey where
  ifindex : UInt32
  ipv4 : UInt32
  deriving DecidableEq, Repr

/-- Monotonic byte and packet counters. -/
structure TrafficValue where
  rxBytes : ℕ := 0
  txBytes : ℕ := 0
  rxPackets : ℕ := 0
  txPackets : ℕ := 0
  deriving DecidableEq, Repr

/-- Key of the limit maps: one limiter per (IPv4, direction). -/
structure LimitKey where
  ipv4 : UInt32
  direction : UInt8
  deriving DecidableEq, Repr

/-- A limiter policy as installed into `LIMIT_POLICIES`. -/
structure LimitPolicy where
  enabled : UInt8
  algorithm : UInt32
  rateBps : ℕ
  burstBytes : ℕ
  windowNs : ℕ
  deriving DecidableEq, Repr

/-- Runtime limiter state; what `a`, `b` and `c` mean depends on the algorithm:

| algorithm              | a                | b              | c            |
|------------------------|------------------|----------------|--------------|
| token bucket           | tokens (nbytes)  | last refill ns | -            |
| leaky bucket           | level (nbytes)   | last drain ns  | -            |
| fixed window           | used bytes       | window start   | -            |
| sliding window counter | previous window  | current window | window start |
| GCRA                   | TAT              | -              | -            | -/
structure LimitState where
  a : ℕ := 0
  b : ℕ := 0
  c : ℕ := 0
  deriving DecidableEq, Repr

/-- `SWL_LOG_CAP`: capacity of the sliding-window-log ring. -/
def swlLogCap : ℕ := 1024

/-- One logged packet: arrival time and wire length. -/
structure SwlEntry where
  tsNs : ℕ := 0
  len : ℕ := 0
  deriving DecidableEq, Repr

/-- The bounded log ring of the sliding-window-log algorithm. -/
structure SwlRing where
  head : ℕ := 0
  entries : Vector SwlEntry swlLogCap := Vector.replicate swlLogCap {}
  deriving DecidableEq

/-- Policer verdict counters of one flow. -/
structure PolicerStats where
  passedBytes : ℕ := 0
  passedPackets : ℕ := 0
  droppedBytes : ℕ := 0
  droppedPackets : ℕ := 0
  deriving DecidableEq, Repr

def nsPerMs : ℕ := 1000000

/-- `swc_carried_bytes`: what the sliding window counter carries over from the
previous window, weighted in whole milliseconds. -/
def swcCarriedBytes (prevBytes windowNs elapsedNs : ℕ) : Traced ℕ := do
  let windowMs ← Traced.div windowNs nsPerMs
  if windowMs = 0 then
    return 0
  let remainingNs ← Traced.sub windowNs (min elapsedNs windowNs)
  let remainingMs ← Traced.div remainingNs nsPerMs
  let weighted ← Traced.mul prevBytes remainingMs
  Traced.div weighted windowMs

/-- Counters of the packets too large to police, per direction. -/
structure OversizedStats where
  packets : ℕ := 0
  bytes : ℕ := 0
  deriving DecidableEq, Repr

/-! ### L2 parsing -/

def ethertypeVlan : UInt16 := 0x8100
def ethertypeQinq : UInt16 := 0x88a8
def ethertypeIpv4 : UInt16 := 0x0800
def ethertypeIpv6 : UInt16 := 0x86dd

/-- `VLAN_HDR_LEN`: bytes one tag adds between EtherTypes. -/
def vlanHdrLen : ℕ := 4

/-- `MAX_VLAN_TAGS`. -/
def maxVlanTags : ℕ := 2

/-- `is_vlan_tag`. -/
def isVlanTag (etherType : UInt16) : Bool :=
  etherType = ethertypeVlan || etherType = ethertypeQinq

/-- `vlan_walk`: the number of tags and the EtherType behind them, unless there are more
than two. -/
def vlanWalk (et0 et1 et2 : UInt16) : Option (ℕ × UInt16) :=
  if isVlanTag et0 then
    if isVlanTag et1 then
      if isVlanTag et2 then none else some (2, et2)
    else some (1, et1)
  else some (0, et0)

end VmWatcher

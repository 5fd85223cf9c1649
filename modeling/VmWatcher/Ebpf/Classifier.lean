import VmWatcher.Ebpf.Policers
import VmWatcher.Ebpf.Trie
import VmWatcher.Ebpf.Counters

/-!
# The classifiers (`vm-bandwidth-ebpf/src/main.rs`)

`tc_ingress` and `tc_egress` run `handle` on every packet of a TAP: it parses the frame,
counts the packets of whitelisted addresses and polices the limited ones. Every other
path ends in no verdict.
-/

namespace VmWatcher

/-- What a program reads of a packet through its context. -/
structure TcContext where
  /-- The bytes that `load` can read. -/
  frame : List UInt8
  /-- `ctx.len()`: the length the kernel accounts. -/
  len : UInt32
  ifindex : UInt32

/-- `TC_ACT_SHOT` and `TC_ACT_UNSPEC`. -/
inductive Verdict where
  | shot
  | unspec
  deriving DecidableEq, Repr

/-- Whether the map takes a key it does not hold yet. A full map does not. -/
structure Inserts where
  traffic : Bool
  traffic6 : Bool
  policerStats : Bool
  oversized : Bool

/-- Every insert succeeds. -/
def Inserts.succeed : Inserts := ⟨true, true, true, true⟩

/-- The maps of the data path. -/
structure EbpfMaps where
  /-- The maps the daemon writes. -/
  limits : Dataplane
  counters : Counters
  /-- `OVERSIZED`. -/
  oversized : Table UInt8 OversizedStats

/-- `EthHdr::LEN`. -/
def ethHdrLen : ℕ := 14

/-- `Ipv4Hdr::LEN`: the header without options. -/
def ipv4HdrLen : ℕ := 20

/-- `Ipv6Hdr::LEN`. -/
def ipv6HdrLen : ℕ := 40

/-- `u16::from_be` of the two bytes at an offset of a header. -/
def be16At (hdr : List UInt8) (off : ℕ) : UInt16 :=
  UInt16.ofNat ((hdr.getD off 0).toNat * 256 + (hdr.getD (off + 1) 0).toNat)

/-- The four address bytes at an offset of a header. -/
def addrAt (hdr : List UInt8) (off : ℕ) : UInt32 :=
  ofNetworkBytes ((hdr.drop off).take 4)

/-- The direction a program polices. -/
def directionOf (isTx : Bool) : UInt8 := if isTx then dirTx else dirRx

namespace TcContext

/-- `ctx.load`: the header of `n` bytes at an offset, if the frame holds all of it. -/
def load (ctx : TcContext) (off n : ℕ) : Option (List UInt8) :=
  if off + n ≤ ctx.frame.length then some ((ctx.frame.drop off).take n) else none

/-- The first part of `handle`: the offset of the network header and its EtherType. A
tag's own EtherType lies behind its two bytes of TCI. -/
def l3Header (ctx : TcContext) : Option (ℕ × UInt16) := do
  let eth ← ctx.load 0 ethHdrLen
  let et0 := be16At eth 12
  let (et1, et2) ← (if isVlanTag et0 then do
      let v ← ctx.load ethHdrLen vlanHdrLen
      let et1 := be16At v 2
      if isVlanTag et1 then do
        let v ← ctx.load (ethHdrLen + vlanHdrLen) vlanHdrLen
        return (et1, be16At v 2)
      else
        return (et1, 0)
    else
      return (0, 0) : Option (UInt16 × UInt16))
  let (tags, etherType) ← vlanWalk et0 et1 et2
  return (ethHdrLen + tags * vlanHdrLen, etherType)

end TcContext

/-- `stats.packets += 1; stats.bytes += len_bytes`. -/
def OversizedStats.record (stats : OversizedStats) (lenBytes : ℕ) : OversizedStats :=
  ⟨u64Add stats.packets 1, u64Add stats.bytes lenBytes⟩

/-- One verdict on top of a flow's counters. -/
def PolicerStats.record (stats : PolicerStats) (passed : Bool) (lenBytes : ℕ) : PolicerStats :=
  if passed then
    { stats with
      passedBytes := u64Add stats.passedBytes lenBytes
      passedPackets := u64Add stats.passedPackets 1 }
  else
    { stats with
      droppedBytes := u64Add stats.droppedBytes lenBytes
      droppedPackets := u64Add stats.droppedPackets 1 }

/-- The entry of a key that a program goes on to write: the one that is there, or a fresh
one if the map takes it. -/
def entryOrInsert {K V : Type} (t : Table K V) (insert : Bool) (k : K) (fresh : V) : Option V :=
  match t k with
  | some v => some v
  | none => if insert then some fresh else none

namespace EbpfMaps

/-- `count`. -/
def count (inserts : Inserts) (ctx : TcContext) (ipv4 : UInt32) (isTx : Bool) (m : EbpfMaps) :
    EbpfMaps :=
  let key := ⟨ctx.ifindex, ipv4⟩
  match entryOrInsert m.counters.traffic inserts.traffic key {} with
  | none => m
  | some _ => { m with counters := m.counters.count key isTx ctx.len.toNat }

/-- `count6`. -/
def count6 (inserts : Inserts) (ctx : TcContext) (isTx : Bool) (m : EbpfMaps) : EbpfMaps :=
  match entryOrInsert m.counters.traffic6 inserts.traffic6 ctx.ifindex {} with
  | none => m
  | some _ => { m with counters := m.counters.count6 ctx.ifindex isTx ctx.len.toNat }

/-- `record_oversized`. -/
def recordOversized (inserts : Inserts) (direction : UInt8) (lenBytes : ℕ) (m : EbpfMaps) :
    EbpfMaps :=
  match entryOrInsert m.oversized inserts.oversized direction {} with
  | none => m
  | some stats => { m with oversized := m.oversized.insert direction (stats.record lenBytes) }

/-- `record_verdict`. -/
def recordVerdict (inserts : Inserts) (key : LimitKey) (lenBytes : ℕ) (passed : Bool)
    (m : EbpfMaps) : EbpfMaps :=
  match entryOrInsert m.limits.policerStats inserts.policerStats key ⟨0, 0, 0, 0⟩ with
  | none => m
  | some stats =>
    { m with
      limits.policerStats := m.limits.policerStats.insert key (stats.record passed lenBytes) }

/-- `swl_police`. The result is whether to drop the packet. -/
def swlPolice (inserts : Inserts) (key : LimitKey) (policy : LimitPolicy) (lenBytes now : ℕ)
    (m : EbpfMaps) : EbpfMaps × Bool :=
  if policy.windowNs = 0 then
    (m, false)
  else
    match m.limits.swlLog key with
    | none => (m, false)
    | some ring =>
      let (ring, conform) := (VmWatcher.swlPolice policy ring now lenBytes).val
      let stepped := { m with limits.swlLog := m.limits.swlLog.insert key ring }
      (stepped.recordVerdict inserts key lenBytes conform, !conform)

/-- `police`. The result is whether to drop the packet. -/
def police (inserts : Inserts) (ipv4 : UInt32) (direction : UInt8) (lenBytes now : ℕ)
    (m : EbpfMaps) : EbpfMaps × Bool :=
  let key := ⟨ipv4, direction⟩
  match m.limits.policies key with
  | none => (m, false)
  | some policy =>
    if policy.enabled = 0 ∨ policy.rateBps = 0 then
      (m, false)
    else if lenBytes = 0 then
      (m, false)
    else if lenBytes > maxPolicedLen then
      (m.recordOversized inserts direction lenBytes, false)
    else if policy.algorithm = algoSlidingWindowLog then
      m.swlPolice inserts key policy lenBytes now
    else
      match m.limits.limitState key with
      | none => (m, false)
      | some state =>
        let (state, conform) := (policeState policy state now lenBytes).val
        let stepped := { m with limits.limitState := m.limits.limitState.insert key state }
        (stepped.recordVerdict inserts key lenBytes conform, !conform)

/-- `handle_v6`: the header is only checked to be there. -/
def handleV6 (inserts : Inserts) (ctx : TcContext) (isTx : Bool) (l3Off : ℕ) (m : EbpfMaps) :
    EbpfMaps × Verdict :=
  match ctx.load l3Off ipv6HdrLen with
  | none => (m, .unspec)
  | some _ => (m.count6 inserts ctx isTx, .unspec)

/-- `handle`; `now` is the clock reading the policer takes. -/
def handle (host : ByteOrder) (inserts : Inserts) (ctx : TcContext) (isTx : Bool) (now : ℕ)
    (m : EbpfMaps) [DecidablePred (m.limits.monitors host)] : EbpfMaps × Verdict :=
  match ctx.l3Header with
  | none => (m, .unspec)
  | some (l3Off, etherType) =>
    if etherType = ethertypeIpv4 then
      match ctx.load l3Off ipv4HdrLen with
      | none => (m, .unspec)
      | some ip =>
        let ipv4 := addrAt ip (if isTx then 12 else 16)
        if m.limits.monitors host ipv4 then
          let counted := m.count inserts ctx ipv4 isTx
          let (policed, drop) :=
            counted.police inserts ipv4 (directionOf isTx) ctx.len.toNat now
          (policed, if drop then .shot else .unspec)
        else
          (m, .unspec)
    else if etherType = ethertypeIpv6 then
      m.handleV6 inserts ctx isTx l3Off
    else
      (m, .unspec)

end EbpfMaps

end VmWatcher

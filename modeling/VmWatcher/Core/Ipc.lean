import VmWatcher.Misc.Framing

/-!
# IPC messages (`vm-bandwidth-core/src/ipc.rs`)

What the daemon and its clients tell each other. Of the rates only those of an address are
here, which the detail screen sorts by, and of any type: the daemon's model works out none. A
message travels as a frame: the length of its body as four bytes, most significant first, then
the body. The body is JSON, which another crate writes and reads.
-/

namespace VmWatcher

namespace Ipc

/-- `PROTOCOL_VERSION`. -/
def protocolVersion : ℕ := 1

/-- `MAX_REQUEST_FRAME`. -/
def maxRequestFrame : ℕ := 64 * 1024

/-- `MAX_RESPONSE_FRAME`. -/
def maxResponseFrame : ℕ := 8 * 1024 * 1024

/-- `validate_frame_len`. -/
def validateFrameLen (len max : ℕ) : Except String ℕ :=
  if len > max then .error s!"frame length {len} exceeds limit {max}" else .ok len

/-- A request from the UI to the daemon. -/
inductive Request where
  | overview
  /-- The detail of the range at an index of the overview. -/
  | rangeDetail (index : ℕ)
  deriving DecidableEq, Repr

structure RangeSummary where
  name : String
  range : String
  rxBytes : ℕ
  txBytes : ℕ
  ipCount : ℕ
  /-- Number of flows currently LIMITED in this range. -/
  limited : ℕ
  rxDroppedBytes : ℕ
  txDroppedBytes : ℕ
  deriving DecidableEq, Repr, Inhabited

/-- Everything the overview screen needs. -/
structure Status where
  protocolVersion : ℕ
  generation : ℕ
  configLoadedAt : String
  lastReloadAt : String
  lastReloadOk : Bool
  lastReloadError : String
  bridge : String
  tapCount : ℕ
  configWatcherHealthy : Bool
  configWatcherErrorsTotal : ℕ
  configWatcherLastError : String
  dataplaneDegraded : Bool
  rollbackFailuresTotal : ℕ
  tapAttachFailuresTotal : ℕ
  metricsPushSuccessesTotal : ℕ
  metricsPushFailuresTotal : ℕ
  metricsPushSkippedTotal : ℕ
  oversizedRxPackets : ℕ
  oversizedRxBytes : ℕ
  oversizedTxPackets : ℕ
  oversizedTxBytes : ℕ
  swlMapCapacity : UInt32
  swlMapUsed : ℕ
  ranges : List RangeSummary
  deriving DecidableEq, Repr, Inhabited

structure IpDetail (Rate : Type) where
  ip : UInt32
  rxBps : Rate
  txBps : Rate
  rxBytes : ℕ
  txBytes : ℕ
  rxPackets : ℕ
  txPackets : ℕ
  /-- The effective policy, 0 where the direction has none. -/
  rxThreshold : ℕ
  txThreshold : ℕ
  rxLimit : ℕ
  txLimit : ℕ
  rxState : String
  txState : String
  /-- Seconds of limiting that remain. -/
  rxRemaining : ℕ
  txRemaining : ℕ
  rxDroppedBytes : ℕ
  txDroppedBytes : ℕ
  rxDroppedPackets : ℕ
  txDroppedPackets : ℕ
  deriving DecidableEq, Repr

/-- Everything the detail screen needs for one range. -/
structure RangeDetail (Rate : Type) where
  name : String
  range : String
  rxBytes : ℕ
  txBytes : ℕ
  rxDroppedBytes : ℕ
  txDroppedBytes : ℕ
  rxDroppedPackets : ℕ
  txDroppedPackets : ℕ
  ips : List (IpDetail Rate)
  deriving DecidableEq, Repr

/-- The daemon's reply to a request. -/
inductive Response (Rate : Type) where
  | status (status : Status)
  | rangeDetail (detail : RangeDetail Rate)
  | error (message : String)
  deriving DecidableEq, Repr

/-! ### Frames -/

open Framing

/-- `serde_json` at a type of messages. -/
structure Serde (α : Type) where
  toVec : α → Except String Bytes
  fromSlice : Bytes → Except String α

/-- `encode`. -/
def encode {α : Type} (serde : Serde α) (value : α) : Except String Bytes := do
  let body ← (serde.toVec value).mapError fun e => s!"serialize: {e}"
  if body.length > 2 ^ 32 - 1 then .error "frame too large"
  else return frame body

/-- `decode`. -/
def decode {α : Type} (serde : Serde α) (body : Bytes) : Except String α :=
  (serde.fromSlice body).mapError fun e => s!"deserialize: {e}"

end Ipc

end VmWatcher

import VmWatcher.Common
import VmWatcher.Misc.Mealy

/-!
# The six policing algorithms (`vm-bandwidth-ebpf/src/main.rs`)

Each function is the critical section of one algorithm: it takes the policy, the
flow's state artifact, the clock reading and the wire length, and returns the new
artifact and whether the packet conforms. Arithmetic is `Traced`.
-/

namespace VmWatcher

def nsPerSec : ℕ := 1000000000
def bitsPerByte : ℕ := 8

/-- `NBYTES_PER_BYTE`: bucket state is kept in bytes times 10⁹. -/
def nbytesPerByte : ℕ := 1000000000

/-- `bucket_params`: bucket capacity in nbytes and refill rate in nbytes per ns. -/
def bucketParams (policy : LimitPolicy) : Traced (ℕ × ℕ) := do
  let capacity ← Traced.mul policy.burstBytes nbytesPerByte
  let perNs ← Traced.div policy.rateBps bitsPerByte
  return (capacity, max perNs 1)

/-- `token_bucket`: tokens refill up to `burst`, each packet spends its length. -/
def tokenBucket (policy : LimitPolicy) (state : LimitState) (now lenBytes : ℕ) :
    Traced (LimitState × Bool) := do
  let (capacity, perNs) ← bucketParams policy
  let tokens ← (if now ≥ state.b then do
      let elapsed ← Traced.sub now state.b
      let fullNs ← Traced.div capacity perNs
      if elapsed ≥ fullNs then
        return capacity
      let refill ← Traced.mul elapsed perNs
      let t ← Traced.add state.a refill
      return if t > capacity ∨ t < state.a then capacity else t
    else
      pure state.a : Traced ℕ)
  let cost ← Traced.mul lenBytes nbytesPerByte
  let conform := decide (tokens ≥ cost)
  let tokens ← (if conform then Traced.sub tokens cost else pure tokens : Traced ℕ)
  -- a stale `now` never moves the refill timestamp backwards
  let b := if now > state.b then now else state.b
  return ({ state with a := tokens, b := b }, conform)

/-- `leaky_bucket`: the level drains at the limit rate; a packet is admitted while
the level plus its length fits the capacity. -/
def leakyBucket (policy : LimitPolicy) (state : LimitState) (now lenBytes : ℕ) :
    Traced (LimitState × Bool) := do
  let (capacity, perNs) ← bucketParams policy
  let level ← (if now ≥ state.b then do
      let elapsed ← Traced.sub now state.b
      let fullNs ← Traced.div capacity perNs
      if elapsed ≥ fullNs then
        return 0
      let drained ← Traced.mul elapsed perNs
      Traced.saturatingSub state.a drained
    else
      pure state.a : Traced ℕ)
  let cost ← Traced.mul lenBytes nbytesPerByte
  let conform ← (if capacity ≥ cost then do
      let room ← Traced.sub capacity cost
      return decide (level ≤ room)
    else
      pure false : Traced Bool)
  let level ← (if conform then Traced.add level cost else pure level : Traced ℕ)
  let b := if now > state.b then now else state.b
  return ({ state with a := level, b := b }, conform)

/-- `window_allowance`: bytes per second times whole seconds. -/
def windowAllowance (policy : LimitPolicy) : Traced ℕ := do
  let bytesPerSec ← Traced.div policy.rateBps bitsPerByte
  let secs ← Traced.div policy.windowNs nsPerSec
  Traced.mul bytesPerSec secs

/-- `fixed_window`: `rate × window` bytes per window, anchored at the first packet
after each reset. -/
def fixedWindow (policy : LimitPolicy) (state : LimitState) (now lenBytes : ℕ) :
    Traced (LimitState × Bool) := do
  if policy.windowNs = 0 then
    return (state, true)
  let state ← (if state.b = 0 then
      pure { state with a := 0, b := now }
    else do
      let windowEnd ← Traced.add state.b policy.windowNs
      return if now ≥ windowEnd then { state with a := 0, b := now } else state
    : Traced LimitState)
  let total ← Traced.saturatingAdd state.a lenBytes
  let allowance ← windowAllowance policy
  if total ≤ allowance then do
    let used ← Traced.add state.a lenBytes
    return ({ state with a := used }, true)
  else
    return (state, false)

/-- The rotation of `sliding_window_counter`: start, drop both windows, move on by
one window, or stay. -/
def rotateWindows (w : ℕ) (state : LimitState) (now : ℕ) : Traced LimitState := do
  if state.c = 0 then
    return { state with c := now }
  let twice ← Traced.mul 2 w
  let bothEnd ← Traced.add state.c twice
  if now ≥ bothEnd then
    return { a := 0, b := 0, c := now }
  let windowEnd ← Traced.add state.c w
  if now ≥ windowEnd then do
    let c ← Traced.add state.c w
    return { a := state.b, b := 0, c := c }
  else
    return state

/-- `sliding_window_counter`: weighted estimate over the previous and the current
window. -/
def slidingWindowCounter (policy : LimitPolicy) (state : LimitState) (now lenBytes : ℕ) :
    Traced (LimitState × Bool) := do
  let w := policy.windowNs
  if w = 0 then
    return (state, true)
  let state ← rotateWindows w state now
  let sinceStart ← Traced.saturatingSub now state.c
  let carried ← swcCarriedBytes state.a w (min sinceStart w)
  let estBytes ← Traced.saturatingAdd carried state.b
  let total ← Traced.saturatingAdd estBytes lenBytes
  let allowance ← windowAllowance policy
  if total ≤ allowance then do
    let curr ← Traced.add state.b lenBytes
    return ({ state with b := curr }, true)
  else
    return (state, false)

/-- `gcra`: the Theoretical Arrival Time advances by the packet's emission time; a
packet conforms while its TAT stays inside the burst tolerance. -/
def gcra (policy : LimitPolicy) (state : LimitState) (now lenBytes : ℕ) :
    Traced (LimitState × Bool) := do
  let lenBits ← Traced.mul lenBytes bitsPerByte
  let lenBitNs ← Traced.mul lenBits nsPerSec
  let incrementNs ← Traced.div lenBitNs policy.rateBps
  let burstBits ← Traced.mul policy.burstBytes bitsPerByte
  let burstBitNs ← Traced.mul burstBits nsPerSec
  let toleranceNs ← Traced.div burstBitNs policy.rateBps
  let base := if now > state.a then now else state.a
  let candidateTat ← Traced.add base incrementNs
  let deadline ← Traced.add now toleranceNs
  let conform := decide (candidateTat ≤ deadline)
  return ({ state with a := if conform then candidateTat else state.a }, conform)

/-- The scan of `swl_police`: bytes of the entries newer than `now - window`. The
bound is computed anew for every slot. -/
def swlWindowUsed (now windowNs : ℕ) (entries : List SwlEntry) : Traced ℕ :=
  entries.foldlM (fun used entry => do
    let bound ← Traced.sub now windowNs
    if entry.tsNs > bound then Traced.add used entry.len else pure used) 0

/-- `swl_police` on the flow's ring: exact byte count over the last window. A zero
window passes without touching the ring. -/
def swlPolice (policy : LimitPolicy) (ring : SwlRing) (now lenBytes : ℕ) :
    Traced (SwlRing × Bool) := do
  if policy.windowNs = 0 then
    return (ring, true)
  let used ← swlWindowUsed now policy.windowNs ring.entries.toList
  let total ← Traced.saturatingAdd used lenBytes
  let allowance ← windowAllowance policy
  if total ≤ allowance then do
    let head := ring.head % swlLogCap
    let next ← Traced.add head 1
    return ({ head := next
              entries := ring.entries.set head { tsNs := now, len := lenBytes % 2 ^ 32 }
                (Nat.mod_lt _ (by decide)) }, true)
  else
    return (ring, false)

/-- The dispatch of `police` under the lock. An unknown algorithm conforms. -/
def policeState (policy : LimitPolicy) (state : LimitState) (now lenBytes : ℕ) :
    Traced (LimitState × Bool) :=
  if policy.algorithm = algoTokenBucket then tokenBucket policy state now lenBytes
  else if policy.algorithm = algoLeakyBucket then leakyBucket policy state now lenBytes
  else if policy.algorithm = algoFixedWindow then fixedWindow policy state now lenBytes
  else if policy.algorithm = algoSlidingWindowCounter then
    slidingWindowCounter policy state now lenBytes
  else if policy.algorithm = algoGcra then gcra policy state now lenBytes
  else pure (state, true)

/-- The state artifacts of one flow: its entries of `LIMIT_STATE` and `SWL_LOG`. -/
structure StateArtifacts where
  state : LimitState := {}
  ring : SwlRing := {}
  deriving DecidableEq

/-- `police` once the policy and the artifact of its algorithm are found: the sliding
window log works on the ring, every other algorithm on the state. -/
def policeArtifacts (policy : LimitPolicy) (artifacts : StateArtifacts) (now lenBytes : ℕ) :
    Traced (StateArtifacts × Bool) :=
  if policy.algorithm = algoSlidingWindowLog then do
    let (ring, conform) ← swlPolice policy artifacts.ring now lenBytes
    return ({ artifacts with ring }, conform)
  else do
    let (state, conform) ← policeState policy artifacts.state now lenBytes
    return ({ artifacts with state }, conform)

/-- One packet as a policer sees it: the clock reading taken before the lock and the
wire length. -/
structure Packet where
  now : ℕ
  len : ℕ
  deriving DecidableEq, Repr

/-- The lengths `police` hands to an algorithm: `1..=MAX_POLICED_LEN`. -/
def Packet.Policed (k : Packet) : Prop := 1 ≤ k.len ∧ k.len ≤ maxPolicedLen

instance : DecidablePred Packet.Policed := fun k => by unfold Packet.Policed; infer_instance

/-- A policing algorithm as a machine over packets. -/
def policer {σ : Type} (f : LimitPolicy → σ → ℕ → ℕ → Traced (σ × Bool)) (policy : LimitPolicy) :
    Mealy σ Packet Bool :=
  fun s k => (f policy s k.now k.len).val

/-- The bytes a packet puts through: its length when it is admitted. -/
def admittedBytes {σ : Type} (m : Mealy σ Packet Bool) (s : σ) (k : Packet) : ℕ :=
  if (m s k).2 then k.len else 0

end VmWatcher

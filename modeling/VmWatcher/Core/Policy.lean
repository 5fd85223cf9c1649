import VmWatcher.Common

/-!
# Effective limit policies (`vm-bandwidth-core/src/policy.rs`)

Field-level merge of a range's default and an override, and the completeness check
per direction.
-/

namespace VmWatcher

/-- Raw, per-direction-optional policy fields, of a range default or an override. -/
structure PolicyFields where
  rxThresholdBps : Option ℕ := none
  txThresholdBps : Option ℕ := none
  rxLimitBps : Option ℕ := none
  txLimitBps : Option ℕ := none
  windowSecs : Option ℕ := none
  triggerRatioPct : Option UInt8 := none
  limitDurationSecs : Option ℕ := none
  burstBytes : Option ℕ := none
  algorithm : Option UInt32 := none
  limitWindowSecs : Option ℕ := none
  deriving DecidableEq, Repr

namespace PolicyFields

/-- Field-level merge: `other` wins wherever it is present. -/
def mergedWith (fields other : PolicyFields) : PolicyFields where
  rxThresholdBps := other.rxThresholdBps.or fields.rxThresholdBps
  txThresholdBps := other.txThresholdBps.or fields.txThresholdBps
  rxLimitBps := other.rxLimitBps.or fields.rxLimitBps
  txLimitBps := other.txLimitBps.or fields.txLimitBps
  windowSecs := other.windowSecs.or fields.windowSecs
  triggerRatioPct := other.triggerRatioPct.or fields.triggerRatioPct
  limitDurationSecs := other.limitDurationSecs.or fields.limitDurationSecs
  burstBytes := other.burstBytes.or fields.burstBytes
  algorithm := other.algorithm.or fields.algorithm
  limitWindowSecs := other.limitWindowSecs.or fields.limitWindowSecs

end PolicyFields

/-- Algorithms that need `burst` and have no window of their own. -/
def isBucketAlgo (algorithm : UInt32) : Bool :=
  algorithm = algoTokenBucket || algorithm = algoLeakyBucket || algorithm = algoGcra

/-- Algorithms that need `limit_window` and ignore `burst`. -/
def isWindowAlgo (algorithm : UInt32) : Bool :=
  algorithm = algoFixedWindow || algorithm = algoSlidingWindowCounter ||
    algorithm = algoSlidingWindowLog

/-- A fully-specified limiter for one direction. -/
structure DirPolicy where
  thresholdBps : ℕ
  limitBps : ℕ
  windowSecs : ℕ
  triggerRatioPct : UInt8
  limitDurationSecs : ℕ
  burstBytes : ℕ
  algorithm : UInt32
  limitWindowSecs : ℕ
  deriving DecidableEq, Repr

namespace DirPolicy

/-- `max_admissible_frame_bytes`: the largest frame this policy is meant to admit. -/
def maxAdmissibleFrameBytes (p : DirPolicy) : ℕ :=
  if isWindowAlgo p.algorithm then u64SaturatingMul (p.limitBps / 8) p.limitWindowSecs
  else p.burstBytes

/-- Trigger line in bits per second: `threshold * trigger_ratio`. -/
def triggerBps (p : DirPolicy) : ℕ :=
  u64SaturatingMul p.thresholdBps p.triggerRatioPct.toNat / 100

end DirPolicy

/-- Resolved policy for one IP; `none` on a direction means it is not policed. -/
structure EffectivePolicy where
  rx : Option DirPolicy := none
  tx : Option DirPolicy := none
  deriving DecidableEq, Repr

namespace EffectivePolicy

def isEmpty (p : EffectivePolicy) : Bool := p.rx.isNone && p.tx.isNone

/-- The policy of one direction, as `match dir { DIR_RX => .., DIR_TX => .. }` picks it. -/
def dir (p : EffectivePolicy) (direction : UInt8) : Option DirPolicy :=
  if direction = dirRx then p.rx else if direction = dirTx then p.tx else none

end EffectivePolicy

/-- The field an algorithm cannot do without, and whether it is there. -/
def algorithmField (merged : PolicyFields) (algorithm : UInt32) (what : String) :
    Except String (String × Bool) :=
  if isBucketAlgo algorithm then .ok ("burst", merged.burstBytes.isSome)
  else if isWindowAlgo algorithm then .ok ("limit_window", merged.limitWindowSecs.isSome)
  else .error s!"policy for {what}: unknown algorithm {algorithm}"

/-- The names of the fields a direction lacks, in the order they are reported. -/
def missingFields (threshold limit : Option ℕ) (merged : PolicyFields) (dir : String)
    (field : String × Bool) : List String :=
  [(s!"{dir}_threshold", threshold.isNone), (s!"{dir}_limit", limit.isNone),
    ("window", merged.windowSecs.isNone), ("trigger_ratio", merged.triggerRatioPct.isNone),
    ("limit_duration", merged.limitDurationSecs.isNone), (field.1, !field.2)].filterMap
      fun (name, missing) => if missing then some name else none

/-- `build_dir`: the policy of one direction, zeroed where a field does not apply to
its algorithm. -/
def buildDir (threshold limit : Option ℕ) (merged : PolicyFields) (what dir : String) :
    Except String (Option DirPolicy) := do
  if threshold.isNone && limit.isNone then
    return none
  let algorithm := merged.algorithm.getD algoGcra
  let field ← algorithmField merged algorithm what
  match threshold, limit, merged.windowSecs, merged.triggerRatioPct, merged.limitDurationSecs,
      field.2 with
  | some thresholdBps, some limitBps, some windowSecs, some triggerRatioPct,
      some limitDurationSecs, true =>
    return some {
      thresholdBps, limitBps, windowSecs, triggerRatioPct, limitDurationSecs, algorithm
      burstBytes := if isWindowAlgo algorithm then 0 else merged.burstBytes.getD 0
      limitWindowSecs := if isWindowAlgo algorithm then merged.limitWindowSecs.getD 0 else 0 }
  | _, _, _, _, _, _ =>
    let missing := ", ".intercalate (missingFields threshold limit merged dir field)
    throw s!"policy for {what}: {dir} direction is incomplete; missing {missing}"

/-- `resolve`: merge a range default with an optional override and check each direction. -/
def resolve (range : PolicyFields) (overrideFields : Option PolicyFields) (what : String) :
    Except String EffectivePolicy := do
  let merged := range.mergedWith (overrideFields.getD {})
  let rx ← buildDir merged.rxThresholdBps merged.rxLimitBps merged what "rx"
  let tx ← buildDir merged.txThresholdBps merged.txLimitBps merged what "tx"
  return { rx, tx }

end VmWatcher

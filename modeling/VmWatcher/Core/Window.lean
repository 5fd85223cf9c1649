import VmWatcher.Common
import VmWatcher.Misc.Binary64
import Mathlib.Data.List.Basic

/-!
# Rolling byte windows (`vm-bandwidth-core/src/window.rs`)

A ring of per-tick byte samples. The average over the window is a 64-bit float; whoever
compares it takes the comparison as a parameter, rounded as in the source (`reaches`) or
exact (`reachesExactly`).
-/

namespace VmWatcher

/-- Upper bound on ring size. -/
def maxSamples : ℕ := 3600

/-- A ring of samples with the slot to overwrite next. -/
structure RollingWindow where
  ring : List ℕ
  head : ℕ
  total : ℕ
  observed : ℕ
  tickSecs : ℕ
  windowSecs : ℕ
  head_lt : head < ring.length
  deriving DecidableEq

namespace RollingWindow

/-- How many samples a window of the given length holds. -/
def sampleCount (windowSecs tickSecs : ℕ) : ℕ :=
  min (max (windowSecs / max tickSecs 1) 1) maxSamples

theorem sampleCount_pos (windowSecs tickSecs : ℕ) : 0 < sampleCount windowSecs tickSecs := by
  unfold sampleCount maxSamples
  omega

/-- A window covering `windowSecs` with one sample per `tickSecs`. -/
def new (windowSecs tickSecs : ℕ) : RollingWindow where
  ring := List.replicate (sampleCount windowSecs tickSecs) 0
  head := 0
  total := 0
  observed := 0
  tickSecs := max tickSecs 1
  windowSecs := windowSecs
  head_lt := by simpa using sampleCount_pos windowSecs tickSecs

/-- Add the bytes seen during this tick and advance the ring. -/
def add (w : RollingWindow) (deltaBytes : ℕ) : RollingWindow where
  ring := w.ring.set w.head deltaBytes
  head := (w.head + 1) % w.ring.length
  total := u64SaturatingAdd (w.total - w.ring.get ⟨w.head, w.head_lt⟩) deltaBytes
  observed := if w.observed < w.ring.length then w.observed + 1 else w.observed
  tickSecs := w.tickSecs
  windowSecs := w.windowSecs
  head_lt := by simpa using Nat.mod_lt _ (Nat.zero_lt_of_lt w.head_lt)

/-- True once a full ring of samples has been observed since the last reset. -/
def isFull (w : RollingWindow) : Bool := w.observed ≥ w.ring.length

/-- `average_bps`: the average over the seconds that were observed, in 64-bit floats. -/
def averageF64 (w : RollingWindow) : ℚ :=
  let secs := min w.observed w.ring.length * w.tickSecs
  if secs = 0 then 0
  else Binary64.div (Binary64.mul (Binary64.ofNat w.total) 8) (Binary64.ofNat secs)

/-- `average_bps() >= trigger_bps as f64`. -/
def reaches (w : RollingWindow) (triggerBps : ℕ) : Bool :=
  Binary64.ofNat triggerBps ≤ w.averageF64

/-- `average_bps() >= trigger_bps` without rounding: the average over the seconds that
were observed, compared as a fraction. -/
def reachesExactly (w : RollingWindow) (triggerBps : ℕ) : Bool :=
  let secs := min w.observed w.ring.length * w.tickSecs
  if secs = 0 then triggerBps = 0 else triggerBps * secs ≤ w.total * 8

/-- Clear all samples. -/
def reset (w : RollingWindow) : RollingWindow :=
  { w with
    ring := List.replicate w.ring.length 0
    head := 0
    total := 0
    observed := 0
    head_lt := by simpa using Nat.zero_lt_of_lt w.head_lt }

/-- Resize to a new window length, discarding history. -/
def resize (_ : RollingWindow) (windowSecs tickSecs : ℕ) : RollingWindow := new windowSecs tickSecs

@[simp] theorem windowSecs_new (windowSecs tickSecs : ℕ) :
    (new windowSecs tickSecs).windowSecs = windowSecs := rfl

@[simp] theorem windowSecs_add (w : RollingWindow) (delta : ℕ) :
    (w.add delta).windowSecs = w.windowSecs := rfl

@[simp] theorem windowSecs_reset (w : RollingWindow) : w.reset.windowSecs = w.windowSecs := rfl

@[simp] theorem windowSecs_resize (w : RollingWindow) (windowSecs tickSecs : ℕ) :
    (w.resize windowSecs tickSecs).windowSecs = windowSecs := rfl

end RollingWindow

end VmWatcher

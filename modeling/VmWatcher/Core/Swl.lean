import VmWatcher.Common

/-!
# The userspace model of the sliding window log (`vm-bandwidth-core/src/swl.rs`)

The model the tests of the algorithm run on. Its `Entry` differs from the data path's
in the machine width of `len` alone.
-/

namespace VmWatcher

/-- A ring of logged packets and the slot to write next. -/
structure SwlModel where
  ring : Vector SwlEntry swlLogCap
  head : ℕ
  head_lt : head < swlLogCap

namespace SwlModel

def new : SwlModel := ⟨Vector.replicate swlLogCap {}, 0, by decide⟩

/-- Bytes currently inside the window. -/
def windowUsed (m : SwlModel) (now windowNs : ℕ) : Traced ℕ := do
  let bound ← Traced.sub now windowNs
  (m.ring.toList.filter (·.tsNs > bound)).foldlM (fun sum entry => Traced.add sum entry.len) 0

/-- `police`: whether the packet conforms, which is when it is logged. -/
def police (m : SwlModel) (now len windowNs allowanceBytes : ℕ) : Traced (SwlModel × Bool) := do
  if windowNs = 0 then
    return (m, true)
  let used ← m.windowUsed now windowNs
  let total ← Traced.saturatingAdd used len
  if total ≤ allowanceBytes then
    return ({ ring := m.ring.set m.head { tsNs := now, len := len } m.head_lt
              head := (m.head + 1) % swlLogCap
              head_lt := Nat.mod_lt _ (by decide) }, true)
  else
    return (m, false)

end SwlModel

end VmWatcher

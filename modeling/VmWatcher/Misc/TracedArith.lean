import Mathlib.Algebra.GroupWithZero.Nat
import Mathlib.Data.List.Basic
import Mathlib.Control.Basic

/-!
# Machine arithmetic that keeps a record

A `Traced` computation is the value a piece of straight-line `u64` code returns
together with every arithmetic operation it performed, operands included. The
value is the wrapped one, so `x.val` is what the machine computes; the record is
what a statement about overflow is about.

`Yields allowed x v` is the judgement proofs work with: `x` returns `v`, and each
operation it performed stayed inside `u64` or is one that `allowed` excuses. The
rules below derive it along the shape of the code.
-/

namespace VmWatcher

/-- One arithmetic operation on `u64` operands. -/
inductive ArithOp where
  | add (x y : ℕ)
  | sub (x y : ℕ)
  | mul (x y : ℕ)
  | div (x y : ℕ)
  | saturatingAdd (x y : ℕ)
  | saturatingSub (x y : ℕ)
  | shl (x n : ℕ)
  | narrow (bits x : ℕ)
  deriving DecidableEq, Repr

namespace ArithOp

/-- The operation yields its exact integer value inside `u64`, a conversion inside the
narrower type; a division has a nonzero divisor. -/
@[simp]
def Exact : ArithOp → Prop
  | add x y => x + y < 2 ^ 64
  | sub x y => y ≤ x
  | mul x y => x * y < 2 ^ 64
  | div _ y => y ≠ 0
  | saturatingAdd x y => x + y < 2 ^ 64
  | saturatingSub x y => y ≤ x
  | shl x n => n < 64 ∧ x * 2 ^ n < 2 ^ 64
  | narrow bits x => x < 2 ^ bits

instance : DecidablePred Exact := fun op => by
  cases op <;> unfold Exact <;> infer_instance

/-- A subtraction written to stop at zero. -/
@[simp]
def Clamps : ArithOp → Prop
  | saturatingSub _ _ => True
  | _ => False

end ArithOp

/-- A value and the operations that computed it, first one first. -/
structure Traced (α : Type) where
  val : α
  ops : List ArithOp

namespace Traced

variable {α β : Type}

instance : Monad Traced where
  pure a := ⟨a, []⟩
  bind x f := ⟨(f x.val).val, x.ops ++ (f x.val).ops⟩

@[simp] theorem val_pure (a : α) : (pure a : Traced α).val = a := rfl

@[simp] theorem ops_pure (a : α) : (pure a : Traced α).ops = [] := rfl

@[simp] theorem val_bind (x : Traced α) (f : α → Traced β) :
    (x >>= f).val = (f x.val).val := rfl

@[simp] theorem ops_bind (x : Traced α) (f : α → Traced β) :
    (x >>= f).ops = x.ops ++ (f x.val).ops := rfl

/-- `x + y`, `x += y` and `x.wrapping_add(y)` as compiled without overflow checks. -/
def add (x y : ℕ) : Traced ℕ := ⟨(x + y) % 2 ^ 64, [.add x y]⟩

/-- `x - y` and `x.wrapping_sub(y)`. -/
def sub (x y : ℕ) : Traced ℕ := ⟨(x + (2 ^ 64 - y % 2 ^ 64)) % 2 ^ 64, [.sub x y]⟩

/-- `x * y` and `x.wrapping_mul(y)`. -/
def mul (x y : ℕ) : Traced ℕ := ⟨x * y % 2 ^ 64, [.mul x y]⟩

/-- `x / y`; a zero divisor yields zero, as the kernel's verifier patches it to. -/
def div (x y : ℕ) : Traced ℕ := ⟨x / y, [.div x y]⟩

/-- `x.saturating_add(y)`. -/
def saturatingAdd (x y : ℕ) : Traced ℕ := ⟨min (x + y) (2 ^ 64 - 1), [.saturatingAdd x y]⟩

/-- `x.saturating_sub(y)`. -/
def saturatingSub (x y : ℕ) : Traced ℕ := ⟨x - y, [.saturatingSub x y]⟩

/-- `x << n`. -/
def shl (x n : ℕ) : Traced ℕ := ⟨x * 2 ^ (n % 64) % 2 ^ 64, [.shl x n]⟩

/-- `x as u8`, `x as u32`. -/
def narrow (bits x : ℕ) : Traced ℕ := ⟨x % 2 ^ bits, [.narrow bits x]⟩

/-- `x` returns `v`, and every operation on the way was exact or is `allowed`. -/
structure Yields (allowed : ArithOp → Prop) (x : Traced α) (v : α) : Prop where
  val_eq : x.val = v
  ops_ok : ∀ op ∈ x.ops, op.Exact ∨ allowed op

namespace Yields

variable {allowed : ArithOp → Prop} {x : Traced α} {v : α}

protected theorem pure (a : α) : Yields allowed (pure a) a := ⟨rfl, by simp⟩

protected theorem bind {f : α → Traced β} {w : β} (hx : Yields allowed x v)
    (hf : Yields allowed (f v) w) : Yields allowed (x >>= f) w := by
  obtain ⟨rfl, hxops⟩ := hx
  refine ⟨hf.val_eq, ?_⟩
  intro op hop
  rcases List.mem_append.mp hop with hop | hop
  · exact hxops op hop
  · exact hf.ops_ok op hop

theorem of_eq {w : α} (hx : Yields allowed x v) (h : v = w) : Yields allowed x w := h ▸ hx

/-- Both branches of a test are followed under what the test found. -/
theorem branch {c : Prop} [Decidable c] {y : Traced α}
    (hx : c → Yields allowed x v) (hy : ¬ c → Yields allowed y v) :
    Yields allowed (if c then x else y) v := by
  split
  · exact hx ‹_›
  · exact hy ‹_›

theorem add {a b : ℕ} (h : a + b < 2 ^ 64) : Yields allowed (Traced.add a b) (a + b) :=
  ⟨Nat.mod_eq_of_lt h, by simpa [Traced.add] using Or.inl h⟩

/-- A sum that is exact, or whose wrap is excused, yields its residue. -/
theorem add_wrapped {a b : ℕ} (h : a + b < 2 ^ 64 ∨ allowed (.add a b)) :
    Yields allowed (Traced.add a b) ((a + b) % 2 ^ 64) :=
  ⟨rfl, by simpa [Traced.add] using h⟩

theorem sub {a b : ℕ} (ha : a < 2 ^ 64) (h : b ≤ a) :
    Yields allowed (Traced.sub a b) (a - b) := by
  refine ⟨?_, by simpa [Traced.sub] using Or.inl h⟩
  have wrapped : (a + (2 ^ 64 - b % 2 ^ 64)) % 2 ^ 64 = a - b := by omega
  exact wrapped

theorem mul {a b : ℕ} (h : a * b < 2 ^ 64) : Yields allowed (Traced.mul a b) (a * b) :=
  ⟨Nat.mod_eq_of_lt h, by simpa [Traced.mul] using Or.inl h⟩

/-- A product that is exact, or whose wrap is excused, yields its residue. -/
theorem mul_wrapped {a b : ℕ} (h : a * b < 2 ^ 64 ∨ allowed (.mul a b)) :
    Yields allowed (Traced.mul a b) (a * b % 2 ^ 64) :=
  ⟨rfl, by simpa [Traced.mul] using h⟩

theorem div {a b : ℕ} (h : b ≠ 0) : Yields allowed (Traced.div a b) (a / b) :=
  ⟨rfl, by simpa [Traced.div] using Or.inl h⟩

theorem saturatingAdd {a b : ℕ} (h : a + b < 2 ^ 64) :
    Yields allowed (Traced.saturatingAdd a b) (a + b) :=
  ⟨Nat.min_eq_left (Nat.le_of_lt_succ h),
    by simpa [Traced.saturatingAdd] using Or.inl h⟩

/-- A sum that is exact, or whose stop at `u64::MAX` is excused. -/
theorem saturatingAdd_stopped {a b : ℕ} (h : a + b < 2 ^ 64 ∨ allowed (.saturatingAdd a b)) :
    Yields allowed (Traced.saturatingAdd a b) (min (a + b) (2 ^ 64 - 1)) :=
  ⟨rfl, by simpa [Traced.saturatingAdd] using h⟩

theorem saturatingSub {a b : ℕ} (h : ∀ op : ArithOp, op.Clamps → allowed op) :
    Yields allowed (Traced.saturatingSub a b) (a - b) :=
  ⟨rfl, by simpa [Traced.saturatingSub] using Or.inr (h (.saturatingSub a b) trivial)⟩

theorem shl {a n : ℕ} (hn : n < 64) (h : a * 2 ^ n < 2 ^ 64) :
    Yields allowed (Traced.shl a n) (a * 2 ^ n) := by
  refine ⟨?_, by simpa [Traced.shl] using Or.inl ⟨hn, h⟩⟩
  show a * 2 ^ (n % 64) % 2 ^ 64 = a * 2 ^ n
  rw [Nat.mod_eq_of_lt hn, Nat.mod_eq_of_lt h]

theorem narrow {bits a : ℕ} (h : a < 2 ^ bits) : Yields allowed (Traced.narrow bits a) a :=
  ⟨Nat.mod_eq_of_lt h, by simpa [Traced.narrow] using Or.inl h⟩

end Yields

end Traced

end VmWatcher

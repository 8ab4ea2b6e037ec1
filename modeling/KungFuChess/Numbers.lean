/-
**Numbers as C++ computes with them**: the `int` of 32 bits, whose sums wrap around, and
the `double`, as far as positive numbers are multiplied and divided.

A sum of `int`s is kept as an `Int`, and `to_int` brings it back into the range. The
results below say when there was nothing to bring back, so that a proof about whole
numbers applies.

A `double` is an exact fraction of a power of two here, and an operation is the exact
one, rounded once. Only normal numbers occur, so a scale is a natural number and has no
lower end.
-/
import Mathlib.Data.Int.ModEq

set_option autoImplicit false

namespace Numbers

/-! ## `int` -/

/-- Held by an `int` of 32 bits. -/
def FitsInt (n : Int) : Prop := -2147483648 ≤ n ∧ n ≤ 2147483647

/-- `static_cast<int>`, and what becomes of a sum of `int`s: the number of the same class
modulo `2 ^ 32` that fits. -/
def to_int (n : Int) : Int := n.bmod (2 ^ 32)

theorem to_int_eq (n : Int) :
    to_int n = if n % 4294967296 < 2147483648 then n % 4294967296
      else n % 4294967296 - 4294967296 :=
  Int.bmod_def n (2 ^ 32)

/-- **What fits is kept.** -/
theorem to_int_of_fits {n : Int} (h : FitsInt n) : to_int n = n := by
  obtain ⟨hlow, hhigh⟩ := h
  rw [to_int_eq]
  split_ifs <;> omega

/-- Two sums are wrapped as one. -/
theorem to_int_add (m n : Int) : to_int (to_int m + n) = to_int (m + n) :=
  Int.bmod_add_bmod

/-- A number that is not positive still looks so, or has come around again. -/
theorem to_int_nonpos_iff (n : Int) : to_int n ≤ 0 ↔ -n % 4294967296 ≤ 2147483648 := by
  rw [to_int_eq]
  split_ifs <;> omega

/-! ## `double` -/

/-- A `double` that is not negative: `mantissa / 2 ^ scale`. -/
structure Double where
  mantissa : Nat
  scale : Nat
deriving DecidableEq, Repr

namespace Double

/-- The scale at which `n / d` has 53 digits before the point. -/
def scale_of (n d : Nat) : Nat :=
  let scale := 53 + d.log2 - n.log2
  if n * 2 ^ scale / d < 2 ^ 53 then scale else scale - 1

/-- `n / d`, rounded to the nearest `double`, and from half way to the even one. -/
def nearest (n d : Nat) : Double :=
  let scale := scale_of n d
  let below := n * 2 ^ scale / d
  let rest := n * 2 ^ scale % d
  ⟨if 2 * rest < d ∨ (2 * rest = d ∧ below % 2 = 0) then below else below + 1, scale⟩

def mul (a b : Double) : Double := nearest (a.mantissa * b.mantissa) (2 ^ (a.scale + b.scale))

def div (a b : Double) : Double := nearest (a.mantissa * 2 ^ b.scale) (b.mantissa * 2 ^ a.scale)

/-- `static_cast<int>`, which drops the fraction. -/
def truncate (a : Double) : Nat := a.mantissa / 2 ^ a.scale

/-- The closest to a tenth. -/
example : nearest 1 10 = ⟨7205759403792794, 56⟩ := by decide

end Double

end Numbers

import Mathlib.Algebra.Order.Ring.Rat
import Mathlib.Data.Rat.Floor

set_option autoImplicit false

/-! # The `float` arithmetic of the services

The services compute with `float`. Everything below is written over a type `F` with the operations
they use and no law at all, so a result about every `F` holds of IEEE single precision (NaN and
rounding included); results about exact arithmetic take `F := ℚ`. -/

namespace ReflectPytest

/-- The `float` operations and conversions the services use. -/
class FloatOps (F : Type) extends Zero F, Add F, Sub F, Mul F, Div F where
  /-- A floating-point literal of the source. -/
  lit : ℚ → F
  /-- An integer converted to `float`. -/
  ofInt : Int → F
  /-- `std::abs`. -/
  abs : F → F
  lt : F → F → Bool
  le : F → F → Bool
  /-- Truncation toward zero, the first half of a conversion to an integer type; a NaN and the
      infinities truncate to something beyond 32 bits. -/
  trunc : F → Int

namespace FloatOps

variable {F : Type} [FloatOps F]

/-- `std::max(a, b)`. -/
def max (a b : F) : F := if lt a b then b else a

/-- `std::clamp(x, lo, hi)`. -/
def clamp (x lo hi : F) : F := if lt x lo then lo else if lt hi x then hi else x

/-- `static_cast<int16_t>` of a `float`. C++ leaves an out-of-range value undefined; on x86-64 the
    conversion is one to 32 bits, which gives `0x80000000` for what does not fit, and then the low
    16 bits of the result. -/
def toInt16 (x : F) : Int :=
  if -2 ^ 31 ≤ trunc x ∧ trunc x < 2 ^ 31 then (trunc x).bmod (2 ^ 16) else 0

end FloatOps

/-- Exact arithmetic. -/
instance : FloatOps ℚ where
  toZero := inferInstance
  toAdd := inferInstance
  toSub := inferInstance
  toMul := inferInstance
  toDiv := inferInstance
  lit q := q
  ofInt n := n
  abs x := if x < 0 then -x else x
  lt a b := decide (a < b)
  le a b := decide (a ≤ b)
  trunc x := if 0 ≤ x then x.floor else x.ceil

namespace FloatOps

@[simp] theorem lit_rat (q : ℚ) : (lit q : ℚ) = q := rfl

@[simp] theorem ofInt_rat (n : Int) : (ofInt n : ℚ) = n := rfl

@[simp] theorem lt_rat (a b : ℚ) : lt a b = decide (a < b) := rfl

@[simp] theorem le_rat (a b : ℚ) : le a b = decide (a ≤ b) := rfl

@[simp] theorem abs_rat (x : ℚ) : abs x = |x| := by
  show (if x < 0 then -x else x) = |x|
  split
  · next h => exact (abs_of_neg h).symm
  · next h => exact (abs_of_nonneg (not_lt.1 h)).symm

end FloatOps

end ReflectPytest

import Mathlib.Algebra.Order.Ring.Int
import Mathlib.Tactic.Ring

set_option autoImplicit false

/-! # Little-endian integers

Naturals and two's complement integers as lists of bytes, least significant byte first. -/

namespace LittleEndian

/-- The low `n` bytes of `k`. -/
def bytesOf : Nat → Nat → List UInt8
  | 0, _ => []
  | n + 1, k => UInt8.ofNat k :: bytesOf n (k / 256)

/-- The number the bytes denote. -/
def value : List UInt8 → Nat
  | [] => 0
  | b :: bs => b.toNat + 256 * value bs

@[simp] theorem length_bytesOf (n k : Nat) : (bytesOf n k).length = n := by
  induction n generalizing k with
  | zero => rfl
  | succ n ih => simp [bytesOf, ih]

theorem value_bytesOf (n k : Nat) : value (bytesOf n k) = k % 256 ^ n := by
  induction n generalizing k with
  | zero => simp [bytesOf, value, Nat.mod_one]
  | succ n ih =>
      have hlow : (UInt8.ofNat k).toNat = k % 256 := rfl
      rw [bytesOf, value, ih, hlow, pow_succ', Nat.mod_mul]

theorem value_bytesOf_of_lt {n k : Nat} (h : k < 256 ^ n) : value (bytesOf n k) = k := by
  rw [value_bytesOf, Nat.mod_eq_of_lt h]

/-- The two's complement encoding of `i` in `n` bytes. -/
def bytesOfInt (n : Nat) (i : Int) : List UInt8 := bytesOf n (i % 256 ^ n).toNat

/-- The two's complement integer the bytes denote. -/
def intValue (bs : List UInt8) : Int := (value bs : Int).bmod (256 ^ bs.length)

@[simp] theorem length_bytesOfInt (n : Nat) (i : Int) : (bytesOfInt n i).length = n :=
  length_bytesOf n _

theorem value_bytesOfInt (n : Nat) (i : Int) : (value (bytesOfInt n i) : Int) = i % 256 ^ n := by
  have hpos : (0 : Int) < 256 ^ n := pow_pos (by decide) n
  have hnonneg : 0 ≤ i % 256 ^ n := Int.emod_nonneg _ (ne_of_gt hpos)
  have hlt : (i % 256 ^ n).toNat < 256 ^ n := by
    rw [Int.toNat_lt hnonneg]
    exact_mod_cast Int.emod_lt_of_pos i hpos
  rw [bytesOfInt, value_bytesOf_of_lt hlt, Int.toNat_of_nonneg hnonneg]

theorem value_bytesOfInt_of_range {n : Nat} {i : Int} (h0 : 0 ≤ i) (h1 : i < 256 ^ n) :
    (value (bytesOfInt n i) : Int) = i := by
  rw [value_bytesOfInt, Int.emod_eq_of_lt h0 h1]

theorem intValue_bytesOfInt {n : Nat} {i : Int} (h0 : -(256 ^ n / 2) ≤ i)
    (h1 : i < (256 ^ n + 1) / 2) : intValue (bytesOfInt n i) = i := by
  rw [intValue, value_bytesOfInt, length_bytesOfInt]
  have hcast : ((256 ^ n : Nat) : Int) = 256 ^ n := by push_cast; rfl
  rw [← hcast, Int.emod_bmod]
  exact Int.bmod_eq_of_le (by rwa [hcast]) (by rwa [hcast])

end LittleEndian

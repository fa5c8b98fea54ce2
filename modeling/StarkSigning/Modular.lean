import StarkSigning.Error

/-!
# StarkSigning.Modular

Arithmetic modulo an arbitrary word. Products and sums are exact before they are reduced.
Subtraction takes operands already below the modulus and wraps on others.

Inverses come from the extended Euclidean algorithm: next to each remainder runs the coefficient
that multiplies the value to it, itself kept below the modulus, so that no step needs a sign. A
value that shares a factor with the modulus has no inverse and is reported as it was given.

* `toNat_add`, `toNat_sub`, `toNat_mul`: what the operations compute, by representatives.
* `sub_quotient_mul`: the step of the algorithm computes a remainder.
-/

namespace StarkSigning
namespace Modular

def add (a b modulus : Word) : Word :=
  Word.ofNat ((a.toNat + b.toNat) % modulus.toNat)

/-- The difference, for operands below the modulus. -/
def sub (a b modulus : Word) : Word :=
  if b ≤ a then a - b else modulus - (b - a)

def mul (a b modulus : Word) : Word :=
  Word.ofNat (a.toNat * b.toNat % modulus.toNat)

theorem toNat_add {a b modulus : Word} (h : 0 < modulus.toNat) :
    (add a b modulus).toNat = (a.toNat + b.toNat) % modulus.toNat :=
  Word.toNat_ofNat (Nat.lt_trans (Nat.mod_lt _ h) modulus.toNat_lt_size)

theorem toNat_mul {a b modulus : Word} (h : 0 < modulus.toNat) :
    (mul a b modulus).toNat = a.toNat * b.toNat % modulus.toNat :=
  Word.toNat_ofNat (Nat.lt_trans (Nat.mod_lt _ h) modulus.toNat_lt_size)

theorem toNat_sub {a b modulus : Word} (ha : a.toNat < modulus.toNat)
    (hb : b.toNat < modulus.toNat) :
    (sub a b modulus).toNat = (modulus.toNat + a.toNat - b.toNat) % modulus.toNat := by
  rw [sub]
  by_cases h : b ≤ a
  · have order : b.toNat ≤ a.toNat := BitVec.le_def.mp h
    rw [if_pos h, BitVec.toNat_sub_of_le h, Nat.add_sub_assoc order, Nat.add_mod_left]
    exact (Nat.mod_eq_of_lt (by omega)).symm
  · have order : a.toNat < b.toNat := Nat.lt_of_not_le fun le => h (BitVec.le_def.mpr le)
    have below : b - a ≤ modulus := by
      rw [BitVec.le_def, BitVec.toNat_sub_of_le (BitVec.le_def.mpr (Nat.le_of_lt order))]
      omega
    rw [if_neg h, BitVec.toNat_sub_of_le below,
      BitVec.toNat_sub_of_le (BitVec.le_def.mpr (Nat.le_of_lt order)), Nat.mod_eq_of_lt]
    · omega
    · omega

theorem sub_quotient_mul (a r : Nat) : a - a / r * r = a % r := by
  have split := Nat.div_add_mod a r
  rw [Nat.mul_comm] at split
  omega

/-- Carries one pair of neighbouring remainders and their coefficients on until the second
remainder is zero. The answer is the greatest common divisor with its coefficient. -/
def bezout (modulus oldRemainder remainder oldFactor factor : Nat) : Nat × Nat :=
  if remainder = 0 then (oldRemainder, oldFactor)
  else
    let quotient := oldRemainder / remainder
    let product := quotient * factor % modulus
    bezout modulus remainder (oldRemainder - quotient * remainder) factor
      (if product ≤ oldFactor then oldFactor - product else modulus - (product - oldFactor))
termination_by remainder
decreasing_by
  rw [sub_quotient_mul]
  exact Nat.mod_lt _ (by omega)

/-- The inverse below the modulus; the modulus must be at least two. -/
def inverse? (value modulus : Word) : Except Error Word :=
  if modulus < 2 then .error (.outOfRange .modulus modulus.toNat)
  else
    let (divisor, factor) :=
      bezout modulus.toNat (value.toNat % modulus.toNat) modulus.toNat 1 0
    if divisor = 1 then .ok (Word.ofNat factor) else .error (.notInvertible value modulus)

/-- The quotient below the modulus: `x` times the inverse of `y`. -/
def div? (x y modulus : Word) : Except Error Word :=
  match inverse? y modulus with
  | .error e => .error e
  | .ok inverse => .ok (mul x inverse modulus)

end Modular
end StarkSigning

import Mathlib.Data.Nat.GCD.Basic
import Mathlib.Data.Int.ModEq
import StarkSigning.Modular

/-!
# StarkSigning.Proofs.Modular.Inverse

Inverses and quotients modulo any word. The algorithm keeps beside each remainder the coefficient
that leads to it (`Tracks`); one step keeps this for the next remainder (`Tracks.step`), and the
last remainder is the greatest common divisor (`bezout_eq_gcd`).

* `inverse?_eq_ok_iff`: the inverse is the one number below the modulus whose product with the
  value is one modulo it, and exists exactly when the algorithm gives it.
* `div?_eq_ok`: a quotient times the divisor is the dividend.
-/

namespace StarkSigning
namespace Modular

/-- The coefficient lies below the modulus and takes the value to the remainder. -/
structure Tracks (value modulus remainder factor : Nat) : Prop where
  factor_lt : factor < modulus
  product : value * factor ≡ remainder [MOD modulus]

/-- The coefficient of the next remainder, as the algorithm computes it. -/
def nextFactor (modulus quotient oldFactor factor : Nat) : Nat :=
  let product := quotient * factor % modulus
  if product ≤ oldFactor then oldFactor - product else modulus - (product - oldFactor)

theorem bezout_zero (modulus oldRemainder oldFactor factor : Nat) :
    bezout modulus oldRemainder 0 oldFactor factor = (oldRemainder, oldFactor) := by
  rw [bezout, if_pos rfl]

theorem bezout_pos {remainder : Nat} (h : remainder ≠ 0)
    (modulus oldRemainder oldFactor factor : Nat) :
    bezout modulus oldRemainder remainder oldFactor factor =
      bezout modulus remainder (oldRemainder % remainder) factor
        (nextFactor modulus (oldRemainder / remainder) oldFactor factor) := by
  rw [bezout, if_neg h]
  simp only [sub_quotient_mul]
  rfl

theorem nextFactor_lt {modulus quotient oldFactor factor : Nat} (h : oldFactor < modulus) :
    nextFactor modulus quotient oldFactor factor < modulus := by
  have small := Nat.mod_lt (quotient * factor) (by omega : 0 < modulus)
  simp only [nextFactor]
  split <;> omega

theorem nextFactor_add {modulus quotient oldFactor factor : Nat} (h : oldFactor < modulus) :
    nextFactor modulus quotient oldFactor factor + quotient * factor ≡ oldFactor
      [MOD modulus] := by
  have small := Nat.mod_lt (quotient * factor) (by omega : 0 < modulus)
  have reduced : nextFactor modulus quotient oldFactor factor + quotient * factor ≡
      nextFactor modulus quotient oldFactor factor + quotient * factor % modulus [MOD modulus] :=
    Nat.ModEq.add_left _ (Nat.mod_modEq _ _).symm
  refine reduced.trans ?_
  simp only [nextFactor]
  split
  · rw [Nat.sub_add_cancel (by assumption)]
  · rename_i above
    rw [show modulus - (quotient * factor % modulus - oldFactor) + quotient * factor % modulus =
      oldFactor + modulus by omega]
    exact Nat.add_modEq_right

theorem Tracks.step {value modulus oldRemainder remainder oldFactor factor : Nat}
    (before : Tracks value modulus oldRemainder oldFactor)
    (now : Tracks value modulus remainder factor) :
    Tracks value modulus (oldRemainder % remainder)
      (nextFactor modulus (oldRemainder / remainder) oldFactor factor) := by
  let quotient := oldRemainder / remainder
  let next := nextFactor modulus quotient oldFactor factor
  refine ⟨nextFactor_lt before.factor_lt, ?_⟩
  have known : value * next + quotient * (value * factor) ≡ oldRemainder [MOD modulus] := by
    have sum : next + quotient * factor ≡ oldFactor [MOD modulus] :=
      nextFactor_add before.factor_lt
    have scaled := sum.mul_left value
    rw [Nat.mul_add, Nat.mul_left_comm] at scaled
    exact scaled.trans before.product
  have split : value * next + quotient * remainder ≡
      oldRemainder % remainder + quotient * remainder [MOD modulus] := by
    have whole : oldRemainder % remainder + quotient * remainder = oldRemainder := by
      rw [Nat.mul_comm, Nat.mod_add_div]
    rw [whole]
    exact ((now.product.mul_left quotient).symm.add_left _).trans known
  exact Nat.ModEq.add_right_cancel' _ split

/-- Two neighbouring remainders with their coefficients lead to the greatest common divisor with
its own. The induction follows the remainders down. -/
theorem bezout_eq_gcd {value modulus : Nat} (remainder : Nat) :
    ∀ {oldRemainder oldFactor factor : Nat}, Tracks value modulus oldRemainder oldFactor →
      Tracks value modulus remainder factor →
      (bezout modulus oldRemainder remainder oldFactor factor).1 = oldRemainder.gcd remainder ∧
        Tracks value modulus (oldRemainder.gcd remainder)
          (bezout modulus oldRemainder remainder oldFactor factor).2 := by
  induction remainder using Nat.strongRecOn with
  | ind remainder ih =>
    intro oldRemainder oldFactor factor before now
    by_cases h : remainder = 0
    · subst h
      rw [bezout_zero, Nat.gcd_zero_right]
      exact ⟨rfl, before⟩
    · rw [bezout_pos h, Nat.gcd_comm, Nat.gcd_rec, Nat.gcd_comm]
      exact ih _ (Nat.mod_lt _ (Nat.pos_of_ne_zero h)) now (before.step now)

theorem bezout_value (value : Nat) {modulus : Nat} (two_le : 2 ≤ modulus) :
    (bezout modulus (value % modulus) modulus 1 0).1 = value.gcd modulus ∧
      Tracks value modulus (value.gcd modulus)
        (bezout modulus (value % modulus) modulus 1 0).2 := by
  have first : Tracks value modulus (value % modulus) 1 :=
    ⟨two_le, by rw [Nat.mul_one]; exact (Nat.mod_modEq _ _).symm⟩
  have second : Tracks value modulus modulus 0 :=
    ⟨by omega, by rw [Nat.mul_zero, Nat.ModEq, Nat.mod_self, Nat.zero_mod]⟩
  have common : (value % modulus).gcd modulus = value.gcd modulus := by
    rw [← Nat.gcd_rec, Nat.gcd_comm]
  rw [← common]
  exact bezout_eq_gcd modulus first second

theorem two_le_iff {modulus : Word} : ¬ modulus < 2 ↔ 2 ≤ modulus.toNat := by
  rw [BitVec.lt_def, Nat.not_lt]
  rfl

theorem inverse?_of_coprime {value modulus : Word} (two_le : 2 ≤ modulus.toNat)
    (coprime : value.toNat.Coprime modulus.toNat) :
    ∃ inverse, inverse? value modulus = .ok inverse ∧ inverse.toNat < modulus.toNat ∧
      value.toNat * inverse.toNat % modulus.toNat = 1 := by
  obtain ⟨divisor, tracks⟩ := bezout_value value.toNat two_le
  rw [coprime] at divisor tracks
  let factor := (bezout modulus.toNat (value.toNat % modulus.toNat) modulus.toNat 1 0).2
  have kept : (Word.ofNat factor).toNat = factor :=
    Word.toNat_ofNat (Nat.lt_trans tracks.factor_lt modulus.toNat_lt_size)
  refine ⟨Word.ofNat factor, ?_, ?_, ?_⟩
  · simp only [inverse?, if_neg (two_le_iff.mpr two_le), if_pos divisor, factor]
  · rw [kept]
    exact tracks.factor_lt
  · rw [kept]
    exact Eq.trans tracks.product (Nat.mod_eq_of_lt two_le)

theorem inverse?_of_not_coprime {value modulus : Word} (two_le : 2 ≤ modulus.toNat)
    (shared : ¬ value.toNat.Coprime modulus.toNat) :
    inverse? value modulus = .error (.notInvertible value modulus) := by
  have divisor := (bezout_value value.toNat two_le).1
  have other : (bezout modulus.toNat (value.toNat % modulus.toNat) modulus.toNat 1 0).1 ≠ 1 := by
    rw [divisor]
    exact shared
  simp only [inverse?, if_neg (two_le_iff.mpr two_le), if_neg other]

theorem coprime_of_mul_mod_eq_one {value inverse modulus : Nat}
    (h : value * inverse % modulus = 1) : value.Coprime modulus := by
  have divides : value.gcd modulus ∣ value * inverse % modulus :=
    (Nat.dvd_mod_iff (Nat.gcd_dvd_right _ _)).mpr (Nat.dvd_mul_right_of_dvd (Nat.gcd_dvd_left _ _) _)
  rw [h] at divides
  exact Nat.dvd_one.mp divides

theorem inverse?_eq_ok_iff {value modulus inverse : Word} :
    inverse? value modulus = .ok inverse ↔
      2 ≤ modulus.toNat ∧ inverse.toNat < modulus.toNat ∧
        value.toNat * inverse.toNat % modulus.toNat = 1 := by
  constructor
  · intro h
    have two_le : 2 ≤ modulus.toNat := by
      by_contra small
      rw [← two_le_iff, not_not] at small
      simp only [inverse?, if_pos small, reduceCtorEq] at h
    have coprime : value.toNat.Coprime modulus.toNat := by
      by_contra shared
      rw [inverse?_of_not_coprime two_le shared] at h
      cases h
    obtain ⟨found, result, bound, product⟩ := inverse?_of_coprime two_le coprime
    rw [result] at h
    cases h
    exact ⟨two_le, bound, product⟩
  · rintro ⟨two_le, bound, product⟩
    have coprime := coprime_of_mul_mod_eq_one product
    obtain ⟨found, result, foundBound, foundProduct⟩ := inverse?_of_coprime two_le coprime
    -- Two inverses agree modulo the modulus, since the value can be cancelled, and both are reduced.
    have same : found.toNat ≡ inverse.toNat [MOD modulus.toNat] :=
      Nat.ModEq.cancel_left_of_coprime coprime.symm (foundProduct.trans product.symm)
    have equal : found = inverse :=
      BitVec.eq_of_toNat_eq (Nat.ModEq.eq_of_lt_of_lt same foundBound bound)
    rw [result, equal]

theorem div?_of_inverse? {x y modulus inverse : Word} (h : inverse? y modulus = .ok inverse) :
    div? x y modulus = .ok (mul x inverse modulus) := by
  rw [div?, h]

theorem div?_of_error {x y modulus : Word} {e : Error} (h : inverse? y modulus = .error e) :
    div? x y modulus = .error e := by
  rw [div?, h]

theorem div?_eq_ok {x y modulus quotient : Word} (h : div? x y modulus = .ok quotient) :
    quotient.toNat < modulus.toNat ∧
      quotient.toNat * y.toNat ≡ x.toNat [MOD modulus.toNat] := by
  cases found : inverse? y modulus with
  | error e =>
    rw [div?, found] at h
    cases h
  | ok inverse =>
    obtain ⟨two_le, bound, product⟩ := inverse?_eq_ok_iff.mp found
    rw [div?_of_inverse? found] at h
    cases h
    rw [toNat_mul (by omega)]
    refine ⟨Nat.mod_lt _ (by omega), ?_⟩
    have one : y.toNat * inverse.toNat ≡ 1 [MOD modulus.toNat] := by
      rw [Nat.ModEq, product, Nat.mod_eq_of_lt two_le]
    calc x.toNat * inverse.toNat % modulus.toNat * y.toNat
        ≡ x.toNat * inverse.toNat * y.toNat [MOD modulus.toNat] :=
          (Nat.mod_modEq _ _).mul_right _
      _ = x.toNat * (y.toNat * inverse.toNat) := by rw [Nat.mul_assoc, Nat.mul_comm inverse.toNat]
      _ ≡ x.toNat * 1 [MOD modulus.toNat] := one.mul_left _
      _ = x.toNat := Nat.mul_one _

end Modular
end StarkSigning

import StarkSigning.Proofs.Modular.Inverse

/-!
# StarkSigning.Proofs.Modular.Rounds

The extended Euclidean algorithm on words. Here it runs over four words of 256 bits, with products
and differences that would wrap, and `Exact` says of a round that none of them does. The quotient
times the remainder is at most the remainder before, and the coefficients stay below the modulus
(`Within`), so a borrowed coefficient is made up for by the modulus.

* `round_within`, `exact_of_within`: one round keeps the bounds and is exact.
* `exists_endsAfter`: the rounds end, and with what the algorithm on numbers gives.
* `inverse?_exact_for_every_modulus`: every outcome of inversion and division.
-/

namespace StarkSigning
namespace Modular

/-- Two neighbouring remainders with their coefficients. -/
structure Registers where
  oldRemainder : Word
  remainder : Word
  oldFactor : Word
  factor : Word

namespace Registers

def start (value modulus : Word) : Registers :=
  ⟨value % modulus, modulus, 1, 0⟩

def quotient (s : Registers) : Word :=
  s.oldRemainder / s.remainder

/-- The quotient times the coefficient, below the modulus. -/
def reducedProduct (modulus : Word) (s : Registers) : Word :=
  mul s.quotient s.factor modulus

def round (modulus : Word) (s : Registers) : Registers :=
  ⟨s.remainder, s.oldRemainder - s.quotient * s.remainder, s.factor,
    sub s.oldFactor (s.reducedProduct modulus) modulus⟩

/-- The registers after so many rounds. -/
def after (modulus : Word) (s : Registers) : Nat → Registers
  | 0 => s
  | n + 1 => after modulus (s.round modulus) n

/-- Neither the product of a round nor one of its differences wraps. -/
structure Exact (modulus : Word) (s : Registers) : Prop where
  product : s.quotient.umulOverflow s.remainder = false
  remainder : s.oldRemainder.usubOverflow (s.quotient * s.remainder) = false
  factor :
    if s.reducedProduct modulus ≤ s.oldFactor then
      s.oldFactor.usubOverflow (s.reducedProduct modulus) = false
    else
      (s.reducedProduct modulus).usubOverflow s.oldFactor = false ∧
        modulus.usubOverflow (s.reducedProduct modulus - s.oldFactor) = false

/-- The remainder is zero after `n` rounds and not before, and these rounds are exact. -/
structure EndsAfter (modulus : Word) (s : Registers) (n : Nat) : Prop where
  ended : (s.after modulus n).remainder = 0
  running : ∀ k < n, (s.after modulus k).remainder ≠ 0
  exact : ∀ k < n, (s.after modulus k).Exact modulus

/-- What the last registers answer. -/
def answer (value modulus : Word) (s : Registers) : Except Error Word :=
  if s.oldRemainder = 1 then .ok s.oldFactor else .error (.notInvertible value modulus)

/-- Both coefficients are below the modulus. -/
structure Within (modulus : Word) (s : Registers) : Prop where
  oldFactor_lt : s.oldFactor.toNat < modulus.toNat
  factor_lt : s.factor.toNat < modulus.toNat

/-- The algorithm on the numbers that the registers hold. -/
def bezoutOf (modulus : Word) (s : Registers) : Nat × Nat :=
  bezout modulus.toNat s.oldRemainder.toNat s.remainder.toNat s.oldFactor.toNat s.factor.toNat

variable {modulus : Word} {s : Registers}

theorem toNat_quotient (s : Registers) :
    s.quotient.toNat = s.oldRemainder.toNat / s.remainder.toNat :=
  BitVec.toNat_udiv

theorem quotient_mul_le (s : Registers) :
    s.quotient.toNat * s.remainder.toNat ≤ s.oldRemainder.toNat := by
  rw [toNat_quotient]
  exact Nat.div_mul_le_self _ _

theorem toNat_quotient_mul (s : Registers) :
    (s.quotient * s.remainder).toNat = s.quotient.toNat * s.remainder.toNat :=
  BitVec.toNat_mul_of_lt (Nat.lt_of_le_of_lt s.quotient_mul_le s.oldRemainder.isLt)

theorem toNat_reducedProduct (h : s.Within modulus) :
    (s.reducedProduct modulus).toNat = s.quotient.toNat * s.factor.toNat % modulus.toNat :=
  toNat_mul (Nat.zero_lt_of_lt h.factor_lt)

theorem toNat_remainder_round (modulus : Word) (s : Registers) :
    (s.round modulus).remainder.toNat = s.oldRemainder.toNat % s.remainder.toNat := by
  have below : s.quotient * s.remainder ≤ s.oldRemainder := by
    rw [BitVec.le_def, toNat_quotient_mul]
    exact s.quotient_mul_le
  rw [round, BitVec.toNat_sub_of_le below, toNat_quotient_mul, toNat_quotient, sub_quotient_mul]

theorem exact_of_within (h : s.Within modulus) : s.Exact modulus := by
  have product := s.toNat_quotient_mul
  have bound := s.quotient_mul_le
  have fits := s.oldRemainder.isLt
  have reduced : (s.reducedProduct modulus).toNat < modulus.toNat := by
    rw [toNat_reducedProduct h]
    exact Nat.mod_lt _ (Nat.zero_lt_of_lt h.factor_lt)
  refine ⟨?_, ?_, ?_⟩
  · simp only [BitVec.umulOverflow, decide_eq_false_iff_not]
    omega
  · simp only [BitVec.usubOverflow, decide_eq_false_iff_not]
    omega
  · split
    · rename_i le
      rw [BitVec.le_def] at le
      simp only [BitVec.usubOverflow, decide_eq_false_iff_not]
      omega
    · rename_i lt
      rw [BitVec.le_def] at lt
      have le : s.oldFactor ≤ s.reducedProduct modulus := by
        rw [BitVec.le_def]
        omega
      simp only [BitVec.usubOverflow, decide_eq_false_iff_not, BitVec.toNat_sub_of_le le]
      omega

/-- The coefficient of the next remainder is that of the algorithm on numbers. -/
theorem toNat_factor_round (h : s.Within modulus) :
    (s.round modulus).factor.toNat =
      nextFactor modulus.toNat s.quotient.toNat s.oldFactor.toNat s.factor.toNat := by
  have reduced := toNat_reducedProduct h
  have small := Nat.mod_lt (s.quotient.toNat * s.factor.toNat) (Nat.zero_lt_of_lt h.factor_lt)
  simp only [round, sub, nextFactor, BitVec.le_def, ← reduced]
  split
  · rename_i le
    exact BitVec.toNat_sub_of_le le
  · rename_i lt
    have le : s.oldFactor ≤ s.reducedProduct modulus := by
      rw [BitVec.le_def]
      omega
    have below : s.reducedProduct modulus - s.oldFactor ≤ modulus := by
      rw [BitVec.le_def, BitVec.toNat_sub_of_le le]
      omega
    rw [BitVec.toNat_sub_of_le below, BitVec.toNat_sub_of_le le]

theorem round_within (h : s.Within modulus) : (s.round modulus).Within modulus := by
  refine ⟨h.factor_lt, ?_⟩
  rw [toNat_factor_round h]
  exact nextFactor_lt h.oldFactor_lt

theorem start_within (value : Word) (two_le : 2 ≤ modulus.toNat) :
    (start value modulus).Within modulus := by
  refine ⟨two_le, ?_⟩
  show 0 < modulus.toNat
  omega

theorem bezoutOf_of_ended (h : s.remainder = 0) :
    s.bezoutOf modulus = (s.oldRemainder.toNat, s.oldFactor.toNat) := by
  rw [bezoutOf, h]
  exact bezout_zero _ _ _ _

theorem bezoutOf_round (h : s.Within modulus) (running : s.remainder ≠ 0) :
    (s.round modulus).bezoutOf modulus = s.bezoutOf modulus := by
  have positive : s.remainder.toNat ≠ 0 := fun zero => running (BitVec.eq_of_toNat_eq zero)
  rw [bezoutOf, bezoutOf, bezout_pos positive, toNat_remainder_round, toNat_factor_round h,
    toNat_quotient]
  rfl

theorem EndsAfter.of_round {n : Nat} (running : s.remainder ≠ 0) (exact : s.Exact modulus)
    (rest : (s.round modulus).EndsAfter modulus n) : s.EndsAfter modulus (n + 1) := by
  refine ⟨rest.ended, fun k le => ?_, fun k le => ?_⟩
  · cases k with
    | zero => exact running
    | succ k => exact rest.running k (Nat.lt_of_succ_lt_succ le)
  · cases k with
    | zero => exact exact
    | succ k => exact rest.exact k (Nat.lt_of_succ_lt_succ le)

/-- The remainders fall, so the rounds end; every one of them is exact, and they lead to what the
algorithm on numbers gives. -/
theorem exists_endsAfter {modulus : Word} (remainder : Nat) :
    ∀ {s : Registers}, s.remainder.toNat = remainder → s.Within modulus →
      ∃ n, s.EndsAfter modulus n ∧ s.bezoutOf modulus =
        ((s.after modulus n).oldRemainder.toNat, (s.after modulus n).oldFactor.toNat) := by
  induction remainder using Nat.strongRecOn with
  | ind remainder ih =>
    rintro s rfl within
    by_cases ended : s.remainder = 0
    · have stopped : s.EndsAfter modulus 0 := ⟨ended, fun _ lt => absurd lt (Nat.not_lt_zero _),
        fun _ lt => absurd lt (Nat.not_lt_zero _)⟩
      exact ⟨0, stopped, bezoutOf_of_ended ended⟩
    · have positive : 0 < s.remainder.toNat :=
        Nat.pos_of_ne_zero fun zero => ended (BitVec.eq_of_toNat_eq zero)
      have falls : (s.round modulus).remainder.toNat < s.remainder.toNat := by
        rw [toNat_remainder_round]
        exact Nat.mod_lt _ positive
      obtain ⟨n, ends, result⟩ := ih _ falls rfl (round_within within)
      rw [bezoutOf_round within ended] at result
      exact ⟨n + 1, ends.of_round ended (exact_of_within within), result⟩

end Registers

open Registers

/-- The rounds on words end without a wrap, and their last registers give the answer. -/
theorem inverse?_eq_answer (value : Word) {modulus : Word} (two_le : 2 ≤ modulus.toNat) :
    ∃ n, (start value modulus).EndsAfter modulus n ∧
      inverse? value modulus = answer value modulus ((start value modulus).after modulus n) := by
  obtain ⟨n, ends, result⟩ := exists_endsAfter _ rfl (start_within value two_le)
  refine ⟨n, ends, ?_⟩
  generalize (start value modulus).after modulus n = last at result
  have numbers : bezout modulus.toNat (value.toNat % modulus.toNat) modulus.toNat 1 0 =
      (last.oldRemainder.toNat, last.oldFactor.toNat) := by
    rw [← result, bezoutOf, start, BitVec.toNat_umod]
    rfl
  have one : last.oldRemainder.toNat = 1 ↔ last.oldRemainder = 1 :=
    ⟨fun same => BitVec.eq_of_toNat_eq same, fun same => by rw [same]; rfl⟩
  have word : Word.ofNat last.oldFactor.toNat = last.oldFactor := BitVec.ofNat_toNat ..
  simp only [inverse?, if_neg (two_le_iff.mpr two_le), numbers, answer, one, word]

theorem inverse?_of_small {value modulus : Word} (small : modulus.toNat < 2) :
    inverse? value modulus = .error (.outOfRange .modulus modulus.toNat) := by
  have lt : modulus < 2 := BitVec.lt_def.mpr small
  rw [inverse?, if_pos lt]

/-- A quotient by a value without common factors is the only number below the modulus whose
product with the value is the dividend. -/
theorem div?_unique {x y modulus quotient : Word} (coprime : y.toNat.Coprime modulus.toNat)
    (h : div? x y modulus = .ok quotient) {z : Nat} (bound : z < modulus.toNat)
    (product : y.toNat * z ≡ x.toNat [MOD modulus.toNat]) : z = quotient.toNat := by
  obtain ⟨below, solves⟩ := div?_eq_ok h
  rw [Nat.mul_comm] at solves
  have same : z ≡ quotient.toNat [MOD modulus.toNat] :=
    Nat.ModEq.cancel_left_of_coprime coprime.symm (product.trans solves.symm)
  exact Nat.ModEq.eq_of_lt_of_lt same bound below

/-- Inversion and division for every value and modulus. A modulus below two is refused. Otherwise
the rounds on words end, none of them wraps, and their answer is that of inversion: for a value
that shares no factor with the modulus the inverse, which is positive and below the modulus, and
for any other a failure that names the value as it was given. The quotient by a value that has an
inverse exists and is the only number below the modulus that multiplies to the dividend; elsewhere
division fails as inversion does. -/
theorem inverse?_exact_for_every_modulus (value modulus : Word) :
    (modulus.toNat < 2 →
      inverse? value modulus = .error (.outOfRange .modulus modulus.toNat)) ∧
    (2 ≤ modulus.toNat →
      ∃ n, (start value modulus).EndsAfter modulus n ∧
        inverse? value modulus = answer value modulus ((start value modulus).after modulus n)) ∧
    (2 ≤ modulus.toNat → value.toNat.gcd modulus.toNat = 1 →
      ∃ i, inverse? value modulus = .ok i ∧ 0 < i.toNat ∧ i.toNat < modulus.toNat ∧
        value.toNat * i.toNat ≡ 1 [MOD modulus.toNat]) ∧
    (2 ≤ modulus.toNat → value.toNat.gcd modulus.toNat ≠ 1 →
      inverse? value modulus = .error (.notInvertible value modulus)) ∧
    ∀ x : Word,
      (∀ e, inverse? value modulus = .error e → div? x value modulus = .error e) ∧
      (∀ i, inverse? value modulus = .ok i → ∃ z, div? x value modulus = .ok z ∧
        z.toNat < modulus.toNat ∧ value.toNat * z.toNat ≡ x.toNat [MOD modulus.toNat] ∧
        ∀ z' < modulus.toNat, value.toNat * z' ≡ x.toNat [MOD modulus.toNat] → z' = z.toNat) := by
  refine ⟨inverse?_of_small, inverse?_eq_answer value, fun two_le coprime => ?_,
    inverse?_of_not_coprime, fun x => ⟨fun e => div?_of_error, fun i found => ?_⟩⟩
  · obtain ⟨i, result, below, product⟩ := inverse?_of_coprime two_le coprime
    have positive : 0 < i.toNat := by
      rcases Nat.eq_zero_or_pos i.toNat with zero | positive
      · rw [zero, Nat.mul_zero, Nat.zero_mod] at product
        cases product
      · exact positive
    refine ⟨i, result, positive, below, ?_⟩
    rw [Nat.ModEq, product, Nat.mod_eq_of_lt two_le]
  · have coprime := coprime_of_mul_mod_eq_one (inverse?_eq_ok_iff.mp found).2.2
    have result := div?_of_inverse? (x := x) found
    obtain ⟨below, solves⟩ := div?_eq_ok result
    rw [Nat.mul_comm] at solves
    exact ⟨_, result, below, solves, fun z bound product => div?_unique coprime result bound product⟩

/-- The largest modulus, which is composite; the largest value, which shares a factor with nine; a
modulus of one; and the quotient of that value and two modulo nine. -/
theorem inverse?_exact_for_every_modulus_extremes :
    let largest : Word := BitVec.allOnes 256
    (∃ i, inverse? 2 largest = .ok i ∧ 2 * i.toNat ≡ 1 [MOD largest.toNat]) ∧
      inverse? largest 9 = .error (.notInvertible largest 9) ∧
      inverse? largest 1 = .error (.outOfRange .modulus 1) ∧
      ∃ z, div? largest 2 9 = .ok z ∧ z.toNat = 3 := by
  intro largest
  obtain ⟨-, -, inverts, -, -⟩ := inverse?_exact_for_every_modulus 2 largest
  obtain ⟨-, -, -, refuses, -⟩ := inverse?_exact_for_every_modulus largest 9
  obtain ⟨small, -⟩ := inverse?_exact_for_every_modulus largest 1
  obtain ⟨-, -, two, -, divides⟩ := inverse?_exact_for_every_modulus 2 9
  obtain ⟨i, found, -, -, product⟩ := inverts (by decide) (by decide)
  obtain ⟨half, halved, -⟩ := two (by decide) (by decide)
  obtain ⟨z, quotient, -, -, only⟩ := (divides largest).2 half halved
  exact ⟨⟨i, found, product⟩, refuses (by decide) (by decide), small (by decide), z, quotient,
    (only 3 (by decide) (by decide)).symm⟩

end Modular
end StarkSigning

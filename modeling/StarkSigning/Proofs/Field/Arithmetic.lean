import StarkSigning.Proofs.Field.Residue

/-!
# StarkSigning.Proofs.Field.Arithmetic

The arithmetic on words is that of the prime field. Sums, differences and negatives take words below
the prime and answer with one: no sum leaves a word, and one correction by the prime is enough.
Products, squares, inverses and quotients take any words.

* `Word.Represents`: a word is the representative of a residue.
* `add_eq_addWithCarry`: the correction of a sum may be decided by the carry and the wrapped sum.
* `operations_of_prime_field`: all the operations.
-/

namespace StarkSigning

/-- The word is the number below the prime in the residue class. -/
structure Word.Represents (w : Word) (z : Residue) : Prop where
  lt_prime : w.toNat < fieldPrime
  residue : (w.toNat : Residue) = z

theorem Word.represents_ofResidue (z : Residue) : (ofResidue z).Represents z :=
  ⟨reduced_ofResidue z, residue_ofResidue z⟩

namespace Field

open Word

/-- A sum on words alone: one that was carried out of them, or is not below the prime, is corrected
by the prime. -/
def addWithCarry (a b : Word) : Word :=
  if a.uaddOverflow b ∨ prime ≤ a + b then a + b - prime else a + b

theorem add_eq_addWithCarry (a b : Word) : add a b = addWithCarry a b := by
  have corrected : (a.uaddOverflow b ∨ prime ≤ a + b) ↔ ¬ a.toNat + b.toNat < fieldPrime := by
    have small : fieldPrime < 2 ^ 256 := by decide
    rw [BitVec.le_def, toNat_prime, BitVec.toNat_add]
    simp only [BitVec.uaddOverflow, decide_eq_true_eq]
    omega
  rw [add, addWithCarry]
  by_cases below : a.toNat + b.toNat < fieldPrime
  · rw [if_pos below, if_neg fun h => corrected.mp h below]
  · rw [if_neg below, if_pos (corrected.mpr below)]

variable {a b : Word}

theorem uaddOverflow_of_reduced (ha : a.Reduced) (hb : b.Reduced) : a.uaddOverflow b = false := by
  have twice : fieldPrime + fieldPrime < 2 ^ 256 := by decide
  rw [Reduced] at ha hb
  simp only [BitVec.uaddOverflow, decide_eq_false_iff_not]
  omega

theorem add_represents (ha : a.Reduced) (hb : b.Reduced) :
    (add a b).Represents (a.residue + b.residue) := by
  rw [← ofResidue_residue ha, ← ofResidue_residue hb, add_ofResidue]
  simpa only [residue_ofResidue] using represents_ofResidue _

theorem sub_represents (ha : a.Reduced) (hb : b.Reduced) :
    (sub a b).Represents (a.residue - b.residue) := by
  rw [← ofResidue_residue ha, ← ofResidue_residue hb, sub_ofResidue]
  simpa only [residue_ofResidue] using represents_ofResidue _

theorem neg_represents (ha : a.Reduced) : (neg a).Represents (-a.residue) := by
  rw [← ofResidue_residue ha, neg_ofResidue]
  simpa only [residue_ofResidue] using represents_ofResidue _

theorem mul_represents (a b : Word) : (mul a b).Represents (a.residue * b.residue) := by
  rw [mul_eq]
  exact represents_ofResidue _

theorem square_represents (a : Word) : (square a).Represents (a.residue * a.residue) :=
  mul_represents a a

theorem inv?_eq_error_iff : inv? a = .error (.notInvertible a prime) ↔ a.residue = 0 := by
  refine ⟨fun h => ?_, inv?_of_eq_zero⟩
  by_contra nonzero
  rw [inv?_of_ne_zero nonzero] at h
  cases h

theorem div?_eq_error_iff : div? a b = .error (.notInvertible b prime) ↔ b.residue = 0 := by
  refine ⟨fun h => ?_, div?_of_eq_zero a⟩
  by_contra nonzero
  rw [div?_of_ne_zero a nonzero] at h
  cases h

/-- The operations on words are those of the prime field. Of words below the prime the sum stays
inside a word and is corrected at most once, and sum, difference and negative are the
representatives of the field's. Products and squares of any words are representatives. A word has
an inverse, and divides other words, unless it is zero modulo the prime, when it is named in the
failure; inverse and quotient are the representatives of the field's. -/
theorem operations_of_prime_field (a b : Word) :
    add a b = addWithCarry a b ∧
    (a.Reduced → b.Reduced → a.uaddOverflow b = false ∧
      (add a b).Represents (a.residue + b.residue) ∧
      (sub a b).Represents (a.residue - b.residue)) ∧
    (a.Reduced → (neg a).Represents (-a.residue)) ∧
    (mul a b).Represents (a.residue * b.residue) ∧
    (square a).Represents (a.residue * a.residue) ∧
    (inv? a = .error (.notInvertible a prime) ↔ a.residue = 0) ∧
    (a.residue ≠ 0 → ∃ inverse, inv? a = .ok inverse ∧ inverse.Represents a.residue⁻¹) ∧
    (div? a b = .error (.notInvertible b prime) ↔ b.residue = 0) ∧
    (b.residue ≠ 0 → ∃ quotient, div? a b = .ok quotient ∧
      quotient.Represents (a.residue / b.residue)) := by
  refine ⟨add_eq_addWithCarry a b, fun ha hb => ?_, neg_represents, mul_represents a b,
    square_represents a, inv?_eq_error_iff, fun nonzero => ?_, div?_eq_error_iff,
    fun nonzero => ?_⟩
  · exact ⟨uaddOverflow_of_reduced ha hb, add_represents ha hb, sub_represents ha hb⟩
  · exact ⟨_, inv?_of_ne_zero nonzero, represents_ofResidue _⟩
  · exact ⟨_, div?_of_ne_zero a nonzero, represents_ofResidue _⟩

/-- The largest word below the prime and one: their sum is the prime itself, their difference is
below it by two, and one over the word after the prime is one. -/
theorem operations_of_prime_field_around_prime :
    let last : Word := prime - 1
    last.Reduced ∧ (add last 1).Represents 0 ∧ (sub 1 last).Represents 2 ∧ (neg last).Represents 1 ∧
      inv? prime = .error (.notInvertible prime prime) ∧
      ∃ quotient, div? 1 (prime + 1) = .ok quotient ∧ quotient.Represents 1 := by
  intro last
  have reduced : last.Reduced := by decide
  have one : (1 : Word).Reduced := by decide
  have minusOne : last.residue = -1 := by decide +kernel
  have unit : (1 : Word).residue = 1 := by decide +kernel
  have zero : prime.residue = 0 := by decide +kernel
  have next : (prime + 1).residue = 1 := by decide +kernel
  obtain ⟨-, ordered, negative, -⟩ := operations_of_prime_field last 1
  obtain ⟨-, reversed, -⟩ := operations_of_prime_field 1 last
  obtain ⟨-, -, -, -, -, fails, -⟩ := operations_of_prime_field prime prime
  obtain ⟨-, -, -, -, -, -, -, -, divides⟩ := operations_of_prime_field 1 (prime + 1)
  obtain ⟨-, sum, -⟩ := ordered reduced one
  obtain ⟨-, -, difference⟩ := reversed one reduced
  have negated := negative reduced
  obtain ⟨quotient, divided, represents⟩ := divides (by rw [next]; exact one_ne_zero)
  rw [minusOne, unit, neg_add_cancel] at sum
  rw [minusOne, unit, sub_neg_eq_add, one_add_one_eq_two] at difference
  rw [minusOne, neg_neg] at negated
  rw [next, unit, div_one] at represents
  exact ⟨reduced, sum, difference, negated, fails.mpr zero, quotient, divided, represents⟩

end Field
end StarkSigning

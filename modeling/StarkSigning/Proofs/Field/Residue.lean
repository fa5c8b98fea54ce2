import Mathlib.Data.ZMod.Basic
import StarkSigning.Field
import StarkSigning.Proofs.Modular.Inverse
import StarkSigning.Proofs.Outcome
import StarkSigning.Proofs.Primality

/-!
# StarkSigning.Proofs.Field.Residue

Words as residues of the STARK prime. `Word.residue` reads any word; `Word.ofResidue` writes a
residue as the word of its representative, and is how every result of the arithmetic is stated:
each operation on words is the same operation of the prime field between the two maps.

* `residue_ofResidue`, `ofResidue_residue`: the two maps are inverse on words below the prime.
* `mul_eq`, `add_ofResidue`, `sub_ofResidue`, `neg_ofResidue`: sums, differences and products.
* `inv?_of_ne_zero`, `div?_of_ne_zero`: inverses and quotients of any words exist where they do in
  the field, and are those of the field.
* `inv?_of_eq_zero`, `div?_of_eq_zero`: elsewhere the divisor is named.
-/

namespace StarkSigning

/-- The prime field. -/
abbrev Residue := ZMod fieldPrime

namespace Word

/-- The residue of a word, reduced or not. -/
def residue (w : Word) : Residue :=
  (w.toNat : Residue)

/-- The word of the representative below the prime. -/
def ofResidue (z : Residue) : Word :=
  Word.ofNat z.val

/-- The word is its own representative. -/
def Reduced (w : Word) : Prop :=
  w.toNat < fieldPrime

instance (w : Word) : Decidable w.Reduced :=
  inferInstanceAs (Decidable (w.toNat < fieldPrime))

@[simp] theorem toNat_ofResidue (z : Residue) : (ofResidue z).toNat = z.val :=
  toNat_ofNat (Nat.lt_trans z.val_lt (by decide))

theorem reduced_ofResidue (z : Residue) : (ofResidue z).Reduced := by
  rw [Reduced, toNat_ofResidue]
  exact z.val_lt

@[simp] theorem residue_ofResidue (z : Residue) : (ofResidue z).residue = z := by
  rw [residue, toNat_ofResidue, ZMod.natCast_zmod_val]

theorem val_residue (w : Word) : w.residue.val = w.toNat % fieldPrime :=
  ZMod.val_natCast _ _

theorem residue_eq_iff {a b : Word} :
    a.residue = b.residue ↔ a.toNat ≡ b.toNat [MOD fieldPrime] :=
  ZMod.natCast_eq_natCast_iff _ _ _

theorem residue_eq_zero_iff {w : Word} : w.residue = 0 ↔ w.toNat ≡ 0 [MOD fieldPrime] := by
  rw [← Nat.cast_zero]
  exact ZMod.natCast_eq_natCast_iff _ _ _

theorem ofResidue_residue {w : Word} (h : w.Reduced) : ofResidue w.residue = w := by
  apply BitVec.eq_of_toNat_eq
  rw [toNat_ofResidue, val_residue, Nat.mod_eq_of_lt h]

theorem eq_ofResidue {w : Word} {z : Residue} (reduced : w.Reduced) (h : w.residue = z) :
    w = ofResidue z := by
  rw [← h, ofResidue_residue reduced]

theorem ofResidue_injective : Function.Injective ofResidue := by
  intro a b h
  rw [← residue_ofResidue a, h, residue_ofResidue]

@[simp] theorem ofResidue_inj {a b : Residue} : ofResidue a = ofResidue b ↔ a = b :=
  ofResidue_injective.eq_iff

theorem ofResidue_zero : ofResidue 0 = 0 := by decide

@[simp] theorem ofResidue_eq_zero {z : Residue} : ofResidue z = 0 ↔ z = 0 := by
  rw [← ofResidue_zero, ofResidue_inj]

theorem toFelt?_eq_ok {w : Word} {e : Felt} (h : w.toFelt? = .ok e) : e.toWord = w := by
  rw [Word.toFelt?, Outcome.mapError_eq_ok_iff, Felt.ofNat?] at h
  split at h
  · cases h
    apply BitVec.eq_of_toNat_eq
    rw [Felt.toNat_toWord]
  · cases h

theorem exists_toFelt?_eq_ok {w : Word} (reduced : w.Reduced) :
    ∃ e, w.toFelt? = .ok e ∧ e.toWord = w := by
  have below : w.toNat < fieldPrime := reduced
  have read : w.toFelt? = .ok ⟨w.toNat, below⟩ := by
    rw [toFelt?, Felt.ofNat?, dif_pos below, Outcome.mapError_ok]
  exact ⟨_, read, toFelt?_eq_ok read⟩

end Word

namespace Field

open Word

theorem residue_sub_of_reduced {a b : Word} (ha : a.Reduced) (hb : b.Reduced) :
    (sub a b).residue = a.residue - b.residue := by
  have below : b.toNat ≤ fieldPrime + a.toNat := Nat.le_add_right_of_le (Nat.le_of_lt hb)
  rw [residue, toNat_sub ha hb, ZMod.natCast_mod, Nat.cast_sub below, Nat.cast_add,
    ZMod.natCast_self, zero_add]
  rfl

theorem reduce_eq (a : Word) : reduce a = ofResidue a.residue := by
  apply BitVec.eq_of_toNat_eq
  rw [toNat_reduce, toNat_ofResidue, val_residue]

theorem mul_eq (a b : Word) : mul a b = ofResidue (a.residue * b.residue) := by
  apply BitVec.eq_of_toNat_eq
  rw [toNat_mul, toNat_ofResidue, ZMod.val_mul, val_residue, val_residue, ← Nat.mul_mod]

theorem square_eq (a : Word) : square a = ofResidue (a.residue ^ 2) := by
  rw [square, mul_eq, sq]

theorem add_ofResidue (a b : Residue) : add (ofResidue a) (ofResidue b) = ofResidue (a + b) := by
  apply BitVec.eq_of_toNat_eq
  rw [toNat_add (reduced_ofResidue a) (reduced_ofResidue b)]
  simp only [toNat_ofResidue, ZMod.val_add]

theorem sub_ofResidue (a b : Residue) : sub (ofResidue a) (ofResidue b) = ofResidue (a - b) := by
  have residues := residue_sub_of_reduced (reduced_ofResidue a) (reduced_ofResidue b)
  simp only [residue_ofResidue] at residues
  refine eq_ofResidue ?_ residues
  rw [Reduced, toNat_sub (reduced_ofResidue a) (reduced_ofResidue b)]
  exact Nat.mod_lt _ (by decide)

theorem neg_ofResidue (a : Residue) : neg (ofResidue a) = ofResidue (-a) := by
  apply BitVec.eq_of_toNat_eq
  rw [toNat_neg (reduced_ofResidue a)]
  simp only [toNat_ofResidue, ZMod.neg_val']

theorem inv?_of_ne_zero {a : Word} (h : a.residue ≠ 0) : inv? a = .ok (ofResidue a.residue⁻¹) := by
  have one : a.toNat * a.residue⁻¹.val % fieldPrime = 1 := by
    have product : ((a.toNat * a.residue⁻¹.val : Nat) : Residue) = 1 := by
      rw [Nat.cast_mul, ZMod.natCast_zmod_val]
      exact mul_inv_cancel₀ h
    rw [← ZMod.val_natCast, product, ZMod.val_one]
  rw [inv?, Modular.inverse?_eq_ok_iff, toNat_prime, toNat_ofResidue]
  exact ⟨by decide, ZMod.val_lt _, one⟩

/-- A multiple of the prime shares it as a factor, and is named as it was given. -/
theorem inv?_of_eq_zero {a : Word} (h : a.residue = 0) :
    inv? a = .error (.notInvertible a prime) := by
  have divides : fieldPrime ∣ a.toNat := (ZMod.natCast_eq_zero_iff _ _).mp h
  apply Modular.inverse?_of_not_coprime
  · rw [toNat_prime]
    decide
  · rw [toNat_prime]
    intro coprime
    exact absurd (Nat.Coprime.eq_one_of_dvd coprime.symm divides) (by decide)

theorem div?_of_ne_zero (a : Word) {b : Word} (h : b.residue ≠ 0) :
    div? a b = .ok (ofResidue (a.residue / b.residue)) := by
  rw [div?, Modular.div?_of_inverse? (inv?_of_ne_zero h)]
  have product : Modular.mul a (ofResidue b.residue⁻¹) prime = mul a (ofResidue b.residue⁻¹) := rfl
  rw [product, mul_eq, residue_ofResidue, div_eq_mul_inv]

theorem div?_of_eq_zero (a : Word) {b : Word} (h : b.residue = 0) :
    div? a b = .error (.notInvertible b prime) :=
  Modular.div?_of_error (inv?_of_eq_zero h)

theorem div?_ofResidue (a : Residue) {b : Residue} (h : b ≠ 0) :
    div? (ofResidue a) (ofResidue b) = .ok (ofResidue (a / b)) := by
  have quotient := div?_of_ne_zero (ofResidue a) (b := ofResidue b) (by rwa [residue_ofResidue])
  simpa only [residue_ofResidue] using quotient

end Field
end StarkSigning

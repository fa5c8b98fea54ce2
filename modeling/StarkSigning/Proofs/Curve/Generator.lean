import Mathlib.GroupTheory.OrderOfElement
import StarkSigning.Proofs.Curve.Weighted

/-!
# StarkSigning.Proofs.Curve.Generator

The fixed points of signing as elements of the group. That the order of the curve takes the
generator to zero is found by running a ladder of weighted points; since the order is prime, the
multiples of the generator are then told apart exactly modulo it.

* `addOrderOf_of_ladderReturns`: a point whose ladder by the order returns has that order.
* `addOrderOf_base`: so has the generator.
* `smul_base_eq_iff`, `smul_base_eq_zero_iff`: equal multiples and the zero multiples.
* `multiple?_generator`: the plain method on the generator.
-/

namespace StarkSigning
namespace Curve

def base : Group :=
  generator.toGroup

def shiftElement : Group :=
  shift.toGroup

theorem ofGroup_base : Point.ofGroup base = generator :=
  Point.ofGroup_toGroup ⟨by decide, by decide⟩ rfl

theorem ofGroup_shiftElement : Point.ofGroup shiftElement = shift :=
  Point.ofGroup_toGroup ⟨by decide, by decide⟩ rfl

theorem ofGroup_neg_shiftElement : Point.ofGroup (-shiftElement) = minusShift := by
  rw [← Point.neg_ofGroup, ofGroup_shiftElement]
  decide

theorem toNat_orderWord : orderWord.toNat = order :=
  Word.toNat_ofNat (by decide)

theorem represents_generator : Weighted.Represents (Weighted.ofPoint generator) base :=
  Weighted.represents_ofPoint ofGroup_base rfl

theorem represents_shift : Weighted.Represents (Weighted.ofPoint shift) shiftElement :=
  Weighted.represents_ofPoint ofGroup_shiftElement rfl

theorem represents_minusShift : Weighted.Represents (Weighted.ofPoint minusShift) (-shiftElement) :=
  Weighted.represents_ofPoint ofGroup_neg_shiftElement rfl

/-- From the shift point, the ladder of this point by the order of the curve comes back to the
shift point. -/
def ladderReturns (p : Point) : Bool :=
  ((Weighted.ofPoint shift).ladder? (Weighted.ofPoint p) (lowBits order 252)).any
    (Weighted.same (Weighted.ofPoint shift))

theorem addOrderOf_of_ladderReturns {p : Point} {g : Group}
    (hp : Weighted.Represents (Weighted.ofPoint p) g) (returns : ladderReturns p = true) :
    addOrderOf g = order := by
  obtain ⟨q, run, equal⟩ := (Option.any_eq_true _ _).mp returns
  have digits : bitsNumber (lowBits order 252) = order := by
    rw [number_lowBits]
    exact Nat.mod_eq_of_lt (by decide)
  have last := (represents_shift.ladder hp run).1
  have comesBack := Weighted.eq_of_same represents_shift last equal
  rw [digits] at comesBack
  have ne_zero : g ≠ 0 := by
    rintro rfl
    exact absurd hp.finite (by decide)
  exact addOrderOf_eq_prime (left_eq_add.mp comesBack) ne_zero

theorem addOrderOf_base : addOrderOf base = order :=
  addOrderOf_of_ladderReturns represents_generator (by decide +kernel)

theorem smul_base_eq_iff {m n : Nat} : m • base = n • base ↔ m ≡ n [MOD order] := by
  rw [nsmul_eq_nsmul_iff_modEq, addOrderOf_base]

theorem smul_base_eq_zero_iff {n : Nat} : n • base = 0 ↔ order ∣ n := by
  rw [← addOrderOf_base, addOrderOf_dvd_iff_nsmul_eq_zero]

theorem smul_base_ne_zero {n : Nat} (pos : 0 < n) (lt : n < order) : n • base ≠ 0 := by
  rw [Ne, smul_base_eq_zero_iff]
  exact Nat.not_dvd_of_pos_of_lt pos lt

theorem multiple?_generator (scalar : Word) :
    Point.multiple? scalar generator = .ok (Point.ofGroup (scalar.toNat • base)) := by
  rw [← ofGroup_base, Point.multiple?_ofGroup]

end Curve
end StarkSigning

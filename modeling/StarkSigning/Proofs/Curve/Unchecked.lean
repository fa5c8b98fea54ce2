import Mathlib.Tactic.LinearCombination
import StarkSigning.Proofs.Curve.Repeated
import StarkSigning.Proofs.Hash.Pedersen

/-!
# StarkSigning.Proofs.Curve.Unchecked

Addition of points that nobody has checked: their coordinates are any words, reduced or not, and
they may lie off the curve. Away from the curve there is no group, but the formulas keep what comes
from the prime field alone. Every denominator that is inverted is other than zero there, so no sum
fails; and a line through two points has one slope whichever of them comes first, so sums commute.

* `exists_chord?_eq_ok`, `exists_tangent?_eq_ok`: sums and doubles of any words exist, and when
  they are infinite.
* `exists_ladder?_eq_ok`, `exists_row?_eq_ok`: so do multiples, and rows of doublings.
* `third_symm`: the third point of a line does not depend on the order of the other two.
* `addition_total_on_words`, `add?_comm_of_any`: the same for all points.
-/

namespace StarkSigning

open Word

namespace Point

open Curve

theorem third_reduced (x₁ y₁ x₂ slope : Residue) : (third x₁ y₁ x₂ slope).Reduced :=
  ⟨reduced_ofResidue _, reduced_ofResidue _⟩

theorem third_ne_infinity (x₁ y₁ x₂ slope : Residue) : third x₁ y₁ x₂ slope ≠ infinity :=
  fun h => by cases h

/-- A double is infinite exactly for a vertical tangent. -/
theorem exists_tangent?_eq_ok (x y : Word) :
    ∃ p, tangent? x y = .ok p ∧ p.Reduced ∧ (p = infinity ↔ y.residue = 0) := by
  refine ⟨_, tangent?_eq x y, ?_⟩
  split
  · rename_i vertical
    exact ⟨trivial, iff_of_true rfl vertical⟩
  · rename_i finite
    exact ⟨third_reduced _ _ _ _, iff_of_false (third_ne_infinity _ _ _ _) finite⟩

/-- A sum is infinite exactly for two points above each other, or for one doubled at `y = 0`. -/
theorem exists_chord?_eq_ok (x₁ y₁ x₂ y₂ : Word) :
    ∃ p, chord? x₁ y₁ x₂ y₂ = .ok p ∧ p.Reduced ∧
      (p = infinity ↔
        x₁.residue = x₂.residue ∧ (y₁.residue ≠ y₂.residue ∨ y₁.residue = 0)) := by
  rw [chord?_eq]
  split
  · rename_i x_eq
    split
    · rename_i y_eq
      obtain ⟨p, doubled, reduced, infinite⟩ := exists_tangent?_eq_ok x₁ y₁
      refine ⟨p, doubled, reduced, infinite.trans ?_⟩
      simp [x_eq, y_eq]
    · rename_i y_ne
      exact ⟨infinity, rfl, trivial, iff_of_true rfl ⟨x_eq, Or.inl y_ne⟩⟩
  · rename_i x_ne
    exact ⟨_, rfl, third_reduced _ _ _ _,
      iff_of_false (third_ne_infinity _ _ _ _) fun h => x_ne h.1⟩

theorem exists_add?_eq_ok (p q : Point) : ∃ r, p.add? q = .ok r := by
  cases p with
  | infinity => exact ⟨q, rfl⟩
  | affine x₁ y₁ =>
    cases q with
    | infinity => exact ⟨affine x₁ y₁, rfl⟩
    | affine x₂ y₂ =>
      obtain ⟨r, sum, -⟩ := exists_chord?_eq_ok x₁ y₁ x₂ y₂
      exact ⟨r, sum⟩

theorem exists_ladder?_eq_ok (sum base : Point) (bits : List Bool) :
    ∃ r, ladder? sum base bits = .ok r := by
  induction bits generalizing sum base with
  | nil => exact ⟨sum, rfl⟩
  | cons bit rest ih =>
    obtain ⟨double, doubled⟩ := exists_double?_eq_ok base
    obtain ⟨added, addition⟩ := exists_add?_eq_ok sum base
    rw [ladder?, doubled]
    cases bit with
    | false => exact ih sum double
    | true =>
      rw [if_pos rfl, addition]
      exact ih added double

/-- With the slope of the chord, the third point is the same from either end. -/
theorem third_symm {x₁ y₁ x₂ y₂ slope : Residue} (h : slope * (x₁ - x₂) = y₁ - y₂) :
    third x₁ y₁ x₂ slope = third x₂ y₂ x₁ slope := by
  have x_eq : weierstrass.addX x₁ x₂ slope = weierstrass.addX x₂ x₁ slope := by
    rw [addX_eq, addX_eq]
    ring
  have y_eq : weierstrass.addY x₁ x₂ y₁ slope = weierstrass.addY x₂ x₁ y₂ slope := by
    rw [addY_eq, addY_eq, x_eq]
    linear_combination h
  rw [third, third, x_eq, y_eq]

theorem chord?_comm (x₁ y₁ x₂ y₂ : Word) : chord? x₁ y₁ x₂ y₂ = chord? x₂ y₂ x₁ y₁ := by
  rw [chord?_eq, chord?_eq]
  by_cases x_eq : x₁.residue = x₂.residue
  · rw [if_pos x_eq, if_pos x_eq.symm]
    by_cases y_eq : y₁.residue = y₂.residue
    · rw [if_pos y_eq, if_pos y_eq.symm, tangent?_congr x_eq y_eq]
    · rw [if_neg y_eq, if_neg (Ne.symm y_eq)]
  · have slope : (y₁.residue - y₂.residue) / (x₁.residue - x₂.residue) =
        (y₂.residue - y₁.residue) / (x₂.residue - x₁.residue) := by
      rw [← neg_sub y₂.residue, ← neg_sub x₂.residue, neg_div_neg_eq]
    have line : (y₁.residue - y₂.residue) / (x₁.residue - x₂.residue) *
        (x₁.residue - x₂.residue) = y₁.residue - y₂.residue :=
      div_mul_cancel₀ _ (sub_ne_zero.mpr x_eq)
    rw [if_neg x_eq, if_neg (Ne.symm x_eq), ← slope, third_symm line]

end Point

namespace Pedersen

open Point

theorem exists_doublings?_eq_ok (p : Point) (count : Nat) :
    ∃ points, doublings? p count = .ok points := by
  induction count generalizing p with
  | zero => exact ⟨[], rfl⟩
  | succ count ih =>
    obtain ⟨double, doubled⟩ := exists_double?_eq_ok p
    obtain ⟨rest, further⟩ := ih double
    simp only [doublings?, doubled, further]
    exact ⟨p :: rest, rfl⟩

theorem exists_row?_eq_ok (low high : Point) : ∃ points, row? low high = .ok points := by
  obtain ⟨lows, first⟩ := exists_doublings?_eq_ok low lowBitCount
  obtain ⟨highs, second⟩ := exists_doublings?_eq_ok high (elementBits - lowBitCount)
  simp only [row?, first, second]
  exact ⟨lows ++ highs, rfl⟩

end Pedersen

namespace Point

/-- Sums and doubles of any words exist, have reduced coordinates unless they are infinite, and
depend on nothing but the residues of the words. A sum is infinite exactly where the `x` agree
modulo the prime and the `y` either differ or are zero, a double exactly where `y` is zero. So
addition, doubling, multiples, rows of doublings of any bases and the table of the Pedersen hash
never fail. -/
theorem addition_total_on_words :
    (∀ x₁ y₁ x₂ y₂ : Word,
      (∃ p, chord? x₁ y₁ x₂ y₂ = .ok p ∧ p.Reduced ∧
        (p = infinity ↔ x₁.toNat ≡ x₂.toNat [MOD fieldPrime] ∧
          (¬ y₁.toNat ≡ y₂.toNat [MOD fieldPrime] ∨ y₁.toNat ≡ 0 [MOD fieldPrime]))) ∧
      ∀ x₁' y₁' x₂' y₂' : Word, x₁.toNat ≡ x₁'.toNat [MOD fieldPrime] →
        y₁.toNat ≡ y₁'.toNat [MOD fieldPrime] → x₂.toNat ≡ x₂'.toNat [MOD fieldPrime] →
        y₂.toNat ≡ y₂'.toNat [MOD fieldPrime] →
        chord? x₁ y₁ x₂ y₂ = chord? x₁' y₁' x₂' y₂') ∧
    (∀ x y : Word,
      (∃ p, tangent? x y = .ok p ∧ p.Reduced ∧
        (p = infinity ↔ y.toNat ≡ 0 [MOD fieldPrime])) ∧
      ∀ x' y' : Word, x.toNat ≡ x'.toNat [MOD fieldPrime] →
        y.toNat ≡ y'.toNat [MOD fieldPrime] → tangent? x y = tangent? x' y') ∧
    (∀ p q : Point, ∃ r, p.add? q = .ok r) ∧
    (∀ p : Point, ∃ r, p.double? = .ok r) ∧
    (∀ (scalar : Word) (p : Point), ∃ r, multiple? scalar p = .ok r ∧
      ladderToLead? infinity p (lowBits scalar.toNat scalar.bitLength) = .ok r) ∧
    (∀ (p : Point) (count : Nat), ∃ points, Pedersen.doublings? p count = .ok points) ∧
    (∀ low high : Point, ∃ points, Pedersen.row? low high = .ok points) ∧
    ∃ rows, Pedersen.table? = .ok rows := by
  simp only [← residue_eq_iff, ← residue_eq_zero_iff]
  refine ⟨fun x₁ y₁ x₂ y₂ => ⟨exists_chord?_eq_ok x₁ y₁ x₂ y₂, ?_⟩,
    fun x y => ⟨exists_tangent?_eq_ok x y, ?_⟩, exists_add?_eq_ok, exists_double?_eq_ok,
    fun scalar p => ?_, Pedersen.exists_doublings?_eq_ok, Pedersen.exists_row?_eq_ok,
    ⟨_, Pedersen.table?_eq⟩⟩
  · intro x₁' y₁' x₂' y₂' hx₁ hy₁ hx₂ hy₂
    exact chord?_congr hx₁ hy₁ hx₂ hy₂
  · intro x' y' hx hy
    exact tangent?_congr hx hy
  · obtain ⟨r, product⟩ := exists_ladder?_eq_ok infinity p (lowBits scalar.toNat scalar.bitLength)
    refine ⟨r, product, ?_⟩
    rw [ladderToLead?_eq]
    exact product

/-- Coordinates one prime above others give the same sum, here of points off the curve; above each
other counts modulo the prime, and so does a vertical tangent. -/
theorem addition_total_on_words_above_prime :
    chord? (Field.prime + 1) 2 5 7 = chord? 1 2 5 7 ∧
      chord? 3 4 (Field.prime + 3) 5 = .ok infinity ∧ tangent? 3 Field.prime = .ok infinity := by
  obtain ⟨sums, doubles, -⟩ := addition_total_on_words
  obtain ⟨-, depends⟩ := sums (Field.prime + 1) 2 5 7
  obtain ⟨⟨sum, added, -, opposite⟩, -⟩ := sums 3 4 (Field.prime + 3) 5
  obtain ⟨⟨double, doubled, -, vertical⟩, -⟩ := doubles 3 Field.prime
  have here : sum = infinity := opposite.mpr ⟨by decide, Or.inl (by decide)⟩
  have here' : double = infinity := vertical.mpr (by decide)
  rw [here] at added
  rw [here'] at doubled
  exact ⟨depends 1 2 5 7 (by decide) rfl rfl rfl, added, doubled⟩

/-- Any two points have one sum in either order. -/
theorem add?_comm_of_any (p q : Point) : p.add? q = q.add? p := by
  cases p with
  | infinity => exact (add?_infinity q).symm
  | affine x₁ y₁ =>
    cases q with
    | infinity => exact add?_infinity (affine x₁ y₁)
    | affine x₂ y₂ => exact chord?_comm x₁ y₁ x₂ y₂

end Point
end StarkSigning

import Mathlib.AlgebraicGeometry.EllipticCurve.Affine.Point
import StarkSigning.Curve.Addition
import StarkSigning.Proofs.Field.Residue

/-!
# StarkSigning.Proofs.Curve.Group

The points of the curve with reduced coordinates are the group of an elliptic curve over the prime
field. `Point.ofGroup` writes an element of the group as a point, and the addition, doubling and
negation of points are those of the group between these forms.

The formulas themselves hold of any coordinates, reduced or not, on the curve or not
(`tangent?_eq`, `chord?_eq`); only the opposite of a point needs the curve equation.

* `onCurve_affine_iff`: the test of the curve equation decides it, on any words.
* `exists_ofGroup_iff`: the forms are infinity and the reduced points on the curve.
* `add?_ofGroup`, `double?_ofGroup`, `neg_ofGroup`: the operations never fail on them.
* `x?_ofGroup_eq_iff`: points that share their `x`.
-/

namespace StarkSigning
namespace Curve

open Word

/-- The curve over the prime field. -/
def weierstrass : WeierstrassCurve.Affine Residue :=
  ⟨0, 0, 0, 1, beta.residue⟩

abbrev Group := weierstrass.Point

theorem equation_iff (x y : Residue) :
    weierstrass.Equation x y ↔ y ^ 2 = x ^ 3 + x + beta.residue := by
  rw [WeierstrassCurve.Affine.equation_iff]
  simp only [weierstrass, zero_mul, add_zero, one_mul]

theorem discriminant_ne_zero : weierstrass.Δ ≠ 0 := by
  have value : weierstrass.Δ = -((64 + 432 * beta.toNat ^ 2 : Nat) : Residue) := by
    simp only [WeierstrassCurve.Δ, WeierstrassCurve.b₂, WeierstrassCurve.b₄, WeierstrassCurve.b₆,
      WeierstrassCurve.b₈, weierstrass, residue]
    push_cast
    ring
  rw [value, neg_ne_zero, Ne, ZMod.natCast_eq_zero_iff, Nat.dvd_iff_mod_eq_zero]
  decide

theorem nonsingular_of_equation {x y : Residue} (h : weierstrass.Equation x y) :
    weierstrass.Nonsingular x y :=
  (WeierstrassCurve.Affine.equation_iff_nonsingular_of_Δ_ne_zero discriminant_ne_zero).mp h

theorem negY_eq (x y : Residue) : weierstrass.negY x y = -y := by
  simp only [WeierstrassCurve.Affine.negY, weierstrass, zero_mul, sub_zero]

theorem addX_eq (x₁ x₂ slope : Residue) :
    weierstrass.addX x₁ x₂ slope = slope ^ 2 - x₁ - x₂ := by
  simp only [WeierstrassCurve.Affine.addX, weierstrass, zero_mul, add_zero, sub_zero]

theorem addY_eq (x₁ x₂ y₁ slope : Residue) :
    weierstrass.addY x₁ x₂ y₁ slope = slope * (x₁ - weierstrass.addX x₁ x₂ slope) - y₁ := by
  rw [WeierstrassCurve.Affine.addY, negY_eq, WeierstrassCurve.Affine.negAddY]
  ring

theorem two_ne_zero : (2 : Residue) ≠ 0 := by
  have value : (2 : Residue) = ((2 : Nat) : Residue) := rfl
  rw [value, Ne, ZMod.natCast_eq_zero_iff]
  decide

theorem self_eq_neg_iff {y : Residue} : y = -y ↔ y = 0 := by
  rw [eq_neg_iff_add_eq_zero, ← two_mul, mul_eq_zero, or_iff_right two_ne_zero]

theorem alpha_eq : alpha = ofResidue 1 := by decide

theorem three_eq : (3 : Word) = ofResidue 3 := by decide

theorem beta_eq : beta = ofResidue beta.residue :=
  (ofResidue_residue (by decide)).symm

end Curve

namespace Point

open Word Curve

/-- The point with these residues as its coordinates. -/
def ofResidues (x y : Residue) : Point :=
  affine (ofResidue x) (ofResidue y)

/-- The element of the group as a point with reduced coordinates. -/
def ofGroup : Curve.Group → Point
  | .zero => infinity
  | .some x y _ => ofResidues x y

/-- Both coordinates are their own representatives. -/
def Reduced : Point → Prop
  | infinity => True
  | affine x y => x.Reduced ∧ y.Reduced

/-- The reflected third point on the line of this slope through points at `x₁` and `x₂`. -/
def third (x₁ y₁ x₂ slope : Residue) : Point :=
  ofResidues (weierstrass.addX x₁ x₂ slope) (weierstrass.addY x₁ x₂ y₁ slope)

theorem ofSlope_ofResidue (slope x₁ y₁ x₂ : Residue) :
    ofSlope (ofResidue slope) (ofResidue x₁) (ofResidue y₁) (ofResidue x₂) =
      third x₁ y₁ x₂ slope := by
  simp only [ofSlope, Field.square_eq, Field.mul_eq, residue_ofResidue, Field.sub_ofResidue, third,
    ofResidues, addX_eq, addY_eq]

theorem tangent?_eq (x y : Word) :
    tangent? x y = .ok (if y.residue = 0 then infinity
      else third x.residue y.residue x.residue ((3 * x.residue ^ 2 + 1) / (2 * y.residue))) := by
  simp only [tangent?, Field.reduce_eq, ofResidue_eq_zero]
  split
  · rfl
  · rename_i y_ne_zero
    have denominator : y.residue + y.residue ≠ 0 := by
      rw [← two_mul]
      exact mul_ne_zero two_ne_zero y_ne_zero
    simp only [Field.square_eq, residue_ofResidue, three_eq, alpha_eq, Field.mul_eq,
      Field.add_ofResidue, Field.div?_ofResidue _ denominator, ofSlope_ofResidue, two_mul]

theorem chord?_eq (x₁ y₁ x₂ y₂ : Word) :
    chord? x₁ y₁ x₂ y₂ =
      if x₁.residue = x₂.residue then
        if y₁.residue = y₂.residue then tangent? x₁ y₁ else .ok infinity
      else
        .ok (third x₁.residue y₁.residue x₂.residue
          ((y₂.residue - y₁.residue) / (x₂.residue - x₁.residue))) := by
  simp only [chord?, Field.reduce_eq, ofResidue_inj]
  split
  · simp only [tangent?_eq, residue_ofResidue]
  · rename_i x_ne
    have denominator : x₂.residue - x₁.residue ≠ 0 := sub_ne_zero.mpr (Ne.symm x_ne)
    simp only [Field.sub_ofResidue, Field.div?_ofResidue _ denominator, ofSlope_ofResidue]

/-- The formulas read their coordinates by the residues. -/
theorem tangent?_congr {x y x' y' : Word} (hx : x.residue = x'.residue)
    (hy : y.residue = y'.residue) : tangent? x y = tangent? x' y' := by
  rw [tangent?_eq, tangent?_eq, hx, hy]

theorem chord?_congr {x₁ y₁ x₂ y₂ x₁' y₁' x₂' y₂' : Word} (hx₁ : x₁.residue = x₁'.residue)
    (hy₁ : y₁.residue = y₁'.residue) (hx₂ : x₂.residue = x₂'.residue)
    (hy₂ : y₂.residue = y₂'.residue) : chord? x₁ y₁ x₂ y₂ = chord? x₁' y₁' x₂' y₂' := by
  rw [chord?_eq, chord?_eq, tangent?_congr hx₁ hy₁, hx₁, hy₁, hx₂, hy₂]

theorem add?_self (p : Point) : p.add? p = p.double? := by
  cases p with
  | infinity => rfl
  | affine x y => rw [add?, chord?_eq, if_pos rfl, if_pos rfl, double?]

theorem ofGroup_zero : ofGroup 0 = infinity := rfl

theorem ofGroup_some {x y : Residue} (h : weierstrass.Nonsingular x y) :
    ofGroup (.some x y h) = ofResidues x y := rfl

theorem ofGroup_injective : Function.Injective ofGroup := by
  intro g h equal
  cases g with
  | zero =>
    cases h with
    | zero => rfl
    | some x y hxy => cases equal
  | some x y hxy =>
    cases h with
    | zero => cases equal
    | some x' y' hxy' =>
      simp only [ofGroup_some, ofResidues, affine.injEq, ofResidue_inj] at equal
      obtain ⟨rfl, rfl⟩ := equal
      rfl

theorem ofGroup_eq_infinity_iff {g : Curve.Group} : ofGroup g = infinity ↔ g = 0 := by
  rw [← ofGroup_zero, ofGroup_injective.eq_iff]

theorem isInfinity_ofGroup_eq_false_iff {g : Curve.Group} :
    (ofGroup g).isInfinity = false ↔ g ≠ 0 := by
  rw [Ne, ← ofGroup_eq_infinity_iff]
  cases ofGroup g with
  | infinity => simp [isInfinity]
  | affine x y => simp [isInfinity]

theorem onCurve_affine_iff (x y : Word) :
    (affine x y).onCurve = true ↔ weierstrass.Equation x.residue y.residue := by
  rw [Curve.equation_iff, onCurve, decide_eq_true_eq, beta_eq]
  simp only [Field.square_eq, Field.mul_eq, residue_ofResidue, Field.add_ofResidue, ofResidue_inj,
    alpha_eq, one_mul, ← pow_succ]

theorem onCurve_ofGroup (g : Curve.Group) : (ofGroup g).onCurve = true := by
  cases g with
  | zero => rfl
  | some x y h =>
    rw [ofGroup_some, ofResidues, onCurve_affine_iff, residue_ofResidue, residue_ofResidue]
    exact h.left

theorem reduced_ofGroup (g : Curve.Group) : (ofGroup g).Reduced := by
  cases g with
  | zero => trivial
  | some x y h => exact ⟨reduced_ofResidue x, reduced_ofResidue y⟩

theorem exists_affine_of_ne_zero {g : Curve.Group} (finite : g ≠ 0) :
    ∃ x y, ofGroup g = affine x y ∧ x.toNat < fieldPrime ∧ y.toNat < fieldPrime := by
  have reduced := reduced_ofGroup g
  cases point : ofGroup g with
  | infinity => exact absurd (ofGroup_eq_infinity_iff.mp point) finite
  | affine x y =>
    rw [point] at reduced
    exact ⟨x, y, rfl, reduced.1, reduced.2⟩

theorem nonsingular_of_onCurve {x y : Word} (h : (affine x y).onCurve = true) :
    weierstrass.Nonsingular x.residue y.residue :=
  nonsingular_of_equation ((onCurve_affine_iff x y).mp h)

/-- The element of the group that a point on the curve stands for; zero for other points. -/
def toGroup : Point → Curve.Group
  | infinity => 0
  | affine x y =>
    if h : (affine x y).onCurve = true then
      .some x.residue y.residue (nonsingular_of_onCurve h)
    else 0

theorem ofGroup_toGroup {p : Point} (reduced : p.Reduced) (h : p.onCurve = true) :
    ofGroup p.toGroup = p := by
  cases p with
  | infinity => rfl
  | affine x y =>
    rw [toGroup, dif_pos h, ofGroup_some, ofResidues, ofResidue_residue reduced.1,
      ofResidue_residue reduced.2]

theorem exists_ofGroup_iff {p : Point} :
    (∃ g, ofGroup g = p) ↔ p.Reduced ∧ p.onCurve = true := by
  constructor
  · rintro ⟨g, rfl⟩
    exact ⟨reduced_ofGroup g, onCurve_ofGroup g⟩
  · rintro ⟨reduced, onCurve⟩
    exact ⟨p.toGroup, ofGroup_toGroup reduced onCurve⟩

theorem exists_ofGroup_of_ofCoordinates? {x y : Word} {p : Point}
    (h : ofCoordinates? x y = .ok p) : ∃ g, g ≠ 0 ∧ ofGroup g = p := by
  simp only [ofCoordinates?] at h
  split at h
  · cases h
  · split at h
    · cases h
    · split at h
      · rename_i x_lt y_lt onCurve
        cases h
        have reduced : (affine x y).Reduced := ⟨Nat.lt_of_not_le x_lt, Nat.lt_of_not_le y_lt⟩
        obtain ⟨g, same⟩ := exists_ofGroup_iff.mpr ⟨reduced, onCurve⟩
        refine ⟨g, ?_, same⟩
        rintro rfl
        cases same
      · cases h

/-! ## The group law -/

theorem tangent?_ofResidue {x y : Residue} (h : weierstrass.Nonsingular x y) :
    tangent? (ofResidue x) (ofResidue y) = .ok (ofGroup (.some x y h + .some x y h)) := by
  rw [tangent?_eq, residue_ofResidue, residue_ofResidue]
  by_cases y_eq_zero : y = 0
  · have opposite : y = weierstrass.negY x y := by
      rw [negY_eq]
      exact self_eq_neg_iff.mpr y_eq_zero
    rw [if_pos y_eq_zero, WeierstrassCurve.Affine.Point.add_self_of_Y_eq opposite, ofGroup_zero]
  · have apart : y ≠ weierstrass.negY x y := by
      rw [negY_eq]
      exact fun same => y_eq_zero (self_eq_neg_iff.mp same)
    have slope : weierstrass.slope x x y y = (3 * x ^ 2 + 1) / (2 * y) := by
      rw [WeierstrassCurve.Affine.slope_of_Y_ne rfl apart, negY_eq]
      simp only [weierstrass, mul_zero, zero_mul, add_zero, sub_zero, sub_neg_eq_add, two_mul]
    rw [if_neg y_eq_zero, WeierstrassCurve.Affine.Point.add_self_of_Y_ne apart, ofGroup_some, slope,
      third]

theorem add?_ofGroup (g h : Curve.Group) :
    (ofGroup g).add? (ofGroup h) = .ok (ofGroup (g + h)) := by
  cases g with
  | zero =>
    rw [← WeierstrassCurve.Affine.Point.zero_def, zero_add, ofGroup_zero, add?]
  | some x₁ y₁ h₁ =>
    cases h with
    | zero =>
      rw [← WeierstrassCurve.Affine.Point.zero_def, add_zero, ofGroup_zero, ofGroup_some]
      rfl
    | some x₂ y₂ h₂ =>
      rw [ofGroup_some, ofGroup_some, ofResidues, ofResidues, add?, chord?_eq]
      simp only [residue_ofResidue]
      by_cases x_eq : x₁ = x₂
      · subst x_eq
        by_cases y_eq : y₁ = y₂
        · subst y_eq
          rw [if_pos rfl, if_pos rfl, tangent?_ofResidue h₁]
        · -- The line through the two points is vertical, so they are opposite.
          have opposite : y₁ = weierstrass.negY x₁ y₂ :=
            (WeierstrassCurve.Affine.Y_eq_of_X_eq h₁.left h₂.left rfl).resolve_left y_eq
          rw [if_pos rfl, if_neg y_eq,
            WeierstrassCurve.Affine.Point.add_of_Y_eq rfl opposite, ofGroup_zero]
      · have slope : weierstrass.slope x₁ x₂ y₁ y₂ = (y₂ - y₁) / (x₂ - x₁) := by
          rw [WeierstrassCurve.Affine.slope_of_X_ne x_eq, ← neg_sub y₂, ← neg_sub x₂,
            neg_div_neg_eq]
        rw [if_neg x_eq, WeierstrassCurve.Affine.Point.add_of_X_ne x_eq, ofGroup_some, slope, third]

theorem double?_ofGroup (g : Curve.Group) : (ofGroup g).double? = .ok (ofGroup (g + g)) := by
  rw [← add?_self, add?_ofGroup]

theorem neg_ofGroup (g : Curve.Group) : (ofGroup g).neg = ofGroup (-g) := by
  cases g with
  | zero => rfl
  | some x y h =>
    rw [WeierstrassCurve.Affine.Point.neg_some, ofGroup_some, ofGroup_some, ofResidues, ofResidues,
      neg, Field.neg_ofResidue, negY_eq]

theorem x?_neg (p : Point) : p.neg.x? = p.x? := by
  cases p with
  | infinity => rfl
  | affine x y => rfl

/-- The two points with one `x` are equal or opposite; infinity is alone without one. -/
theorem x?_ofGroup_eq_iff {g h : Curve.Group} :
    (ofGroup g).x? = (ofGroup h).x? ↔ g = h ∨ g = -h := by
  constructor
  · intro same
    cases g with
    | zero =>
      cases h with
      | zero => exact Or.inl rfl
      | some x₂ y₂ h₂ => cases same
    | some x₁ y₁ h₁ =>
      cases h with
      | zero => cases same
      | some x₂ y₂ h₂ =>
        simp only [ofGroup_some, ofResidues, x?, Option.some.injEq, ofResidue_inj] at same
        subst same
        rcases WeierstrassCurve.Affine.Y_eq_of_X_eq h₁.left h₂.left rfl with equal | opposite
        · subst equal
          exact Or.inl rfl
        · subst opposite
          exact Or.inr rfl
  · rintro (rfl | rfl)
    · rfl
    · rw [← neg_ofGroup, x?_neg]

end Point
end StarkSigning

import Mathlib.Tactic.FieldSimp
import StarkSigning.Proofs.Curve.Multiple

/-!
# StarkSigning.Proofs.Curve.Weighted

Sums of points without division. A weighted point stands for the point with the coordinates
`x / z ^ 2` and `y / z ^ 3`; its doubling and addition need products and remainders of numbers
only, so that a ladder of hundreds of rounds is run by the kernel. Infinity is not represented:
the operations give up on it, and on sums of points with one `x`.

* `Represents`: a weighted point stands for an element of the group.
* `Represents.double`, `Represents.add`: the operations, where they give a result.
* `Represents.ladder`: a ladder, with the points of every round apart.
-/

namespace StarkSigning

structure Weighted where
  x : Nat
  y : Nat
  z : Nat

namespace Weighted

open Curve Point Word

/-- A number that is the negation of this one modulo the prime. -/
def negate (n : Nat) : Nat :=
  fieldPrime - n % fieldPrime

def double? (p : Weighted) : Option Weighted :=
  let slope := (3 * (p.x * p.x) + p.z * p.z * (p.z * p.z)) % fieldPrime
  let square := p.y * p.y % fieldPrime
  let offset := 4 * p.x * square % fieldPrime
  let x := (slope * slope + negate (2 * offset)) % fieldPrime
  let z := 2 * p.y * p.z % fieldPrime
  if z = 0 then none
  else some ⟨x, (slope * (offset + negate x) + negate (8 * (square * square))) % fieldPrime, z⟩

/-- The difference of the two `x`, over the squares of both weights. -/
def gap (p q : Weighted) : Nat :=
  (q.x * (p.z * p.z) + negate (p.x * (q.z * q.z))) % fieldPrime

/-- The sum of two points whose `x` differ. -/
def add (p q : Weighted) : Weighted :=
  let gap := gap p q
  let rise := (q.y * (p.z * p.z * p.z) + negate (p.y * (q.z * q.z * q.z))) % fieldPrime
  let square := gap * gap % fieldPrime
  let offset := p.x * (q.z * q.z) * square % fieldPrime
  let cube := square * gap % fieldPrime
  let x := (rise * rise + negate (cube + 2 * offset)) % fieldPrime
  ⟨x, (rise * (offset + negate x) + negate (p.y * (q.z * q.z * q.z) * cube)) % fieldPrime,
    gap * p.z * q.z % fieldPrime⟩

/-- As the ladder of the circuit. -/
def ladder? (sum base : Weighted) : List Bool → Option Weighted
  | [] => some sum
  | bit :: rest =>
    if gap sum base = 0 then none
    else
      match base.double? with
      | none => none
      | some double => ladder? (if bit then add sum base else sum) double rest

/-- Whether two weighted points have the same coordinates. -/
def same (p q : Weighted) : Bool :=
  gap p q == 0 &&
    (p.y * (q.z * q.z * q.z)) % fieldPrime == (q.y * (p.z * p.z * p.z)) % fieldPrime

/-- The `x` without the weight. -/
def x? (p : Weighted) : Except Error Word :=
  Field.div? (Word.ofNat (p.x % fieldPrime)) (Word.ofNat (p.z * p.z % fieldPrime))

/-- A finite point with weight one. -/
def ofPoint : Point → Weighted
  | .infinity => ⟨0, 0, 0⟩
  | .affine x y => ⟨x.toNat, y.toNat, 1⟩

structure Represents (p : Weighted) (g : Curve.Group) : Prop where
  weight_ne_zero : (p.z : Residue) ≠ 0
  point_eq : ofGroup g = ofResidues ((p.x : Residue) / (p.z : Residue) ^ 2)
    ((p.y : Residue) / (p.z : Residue) ^ 3)

theorem cast_negate (n : Nat) : ((negate n : Nat) : Residue) = -(n : Residue) := by
  have below : n % fieldPrime ≤ fieldPrime := Nat.le_of_lt (Nat.mod_lt _ (by decide))
  rw [negate, Nat.cast_sub below, ZMod.natCast_mod, ZMod.natCast_self, zero_sub]

theorem cast_eq_zero {n : Nat} : ((n % fieldPrime : Nat) : Residue) = 0 ↔ n % fieldPrime = 0 := by
  rw [ZMod.natCast_eq_zero_iff, Nat.dvd_iff_mod_eq_zero, Nat.mod_mod]

theorem represents_ofPoint {p : Point} {g : Curve.Group} (h : ofGroup g = p)
    (finite : p.isInfinity = false) : Represents (ofPoint p) g := by
  have reduced := reduced_ofGroup g
  rw [h] at reduced
  cases p with
  | infinity => cases finite
  | affine x y =>
    refine ⟨?_, ?_⟩
    · rw [ofPoint, Nat.cast_one]
      exact one_ne_zero
    · simp only [ofPoint, Nat.cast_one, one_pow, div_one]
      rw [h, ofResidues, ← residue, ← residue, ofResidue_residue reduced.1,
        ofResidue_residue reduced.2]

theorem third_of_ofResidues {g h : Curve.Group} {x₁ y₁ x₂ y₂ : Residue}
    (hg : ofGroup g = ofResidues x₁ y₁) (hh : ofGroup h = ofResidues x₂ y₂) (x_ne : x₁ ≠ x₂) :
    ofGroup (g + h) = third x₁ y₁ x₂ ((y₂ - y₁) / (x₂ - x₁)) := by
  have sum := add?_ofGroup g h
  rw [hg, hh, ofResidues, ofResidues, add?, chord?_eq] at sum
  simp only [residue_ofResidue] at sum
  rw [if_neg x_ne] at sum
  exact (Except.ok.inj sum).symm

theorem third_self_of_ofResidues {g : Curve.Group} {x y : Residue}
    (hg : ofGroup g = ofResidues x y) (y_ne_zero : y ≠ 0) :
    ofGroup (g + g) = third x y x ((3 * x ^ 2 + 1) / (2 * y)) := by
  have sum := double?_ofGroup g
  rw [hg, ofResidues, Point.double?, tangent?_eq] at sum
  simp only [residue_ofResidue] at sum
  rw [if_neg y_ne_zero] at sum
  exact (Except.ok.inj sum).symm

theorem third_tangent {x y z slope offset x' : Residue} (hy : y ≠ 0) (hz : z ≠ 0)
    (slope_eq : slope = 3 * x ^ 2 + z ^ 4) (offset_eq : offset = 4 * x * y ^ 2)
    (x'_eq : x' = slope ^ 2 - 2 * offset) :
    third (x / z ^ 2) (y / z ^ 3) (x / z ^ 2) ((3 * (x / z ^ 2) ^ 2 + 1) / (2 * (y / z ^ 3))) =
      ofResidues (x' / (2 * y * z) ^ 2)
        ((slope * (offset - x') - 8 * y ^ 4) / (2 * y * z) ^ 3) := by
  have two := Curve.two_ne_zero
  subst slope_eq offset_eq x'_eq
  rw [third, addY_eq, addX_eq]
  congr 1
  · field_simp
    ring
  · field_simp
    ring

theorem third_chord {x₁ y₁ z₁ x₂ y₂ z₂ gap rise offset x : Residue} (h₁ : z₁ ≠ 0) (h₂ : z₂ ≠ 0)
    (gap_ne_zero : gap ≠ 0) (gap_eq : gap = x₂ * z₁ ^ 2 - x₁ * z₂ ^ 2)
    (rise_eq : rise = y₂ * z₁ ^ 3 - y₁ * z₂ ^ 3) (offset_eq : offset = x₁ * z₂ ^ 2 * gap ^ 2)
    (x_eq : x = rise ^ 2 - (gap ^ 3 + 2 * offset)) :
    third (x₁ / z₁ ^ 2) (y₁ / z₁ ^ 3) (x₂ / z₂ ^ 2)
        ((y₂ / z₂ ^ 3 - y₁ / z₁ ^ 3) / (x₂ / z₂ ^ 2 - x₁ / z₁ ^ 2)) =
      ofResidues (x / (gap * z₁ * z₂) ^ 2)
        ((rise * (offset - x) - y₁ * z₂ ^ 3 * gap ^ 3) / (gap * z₁ * z₂) ^ 3) := by
  have second : x₂ / z₂ ^ 2 = gap / (z₁ * z₂) ^ 2 + x₁ / z₁ ^ 2 := by
    rw [gap_eq]
    field_simp
    ring
  have slope : (y₂ / z₂ ^ 3 - y₁ / z₁ ^ 3) / (x₂ / z₂ ^ 2 - x₁ / z₁ ^ 2) =
      rise / (gap * z₁ * z₂) := by
    rw [second, add_sub_cancel_right, rise_eq]
    field_simp
  rw [third, addY_eq, addX_eq, slope, second, x_eq, offset_eq]
  congr 1
  · field_simp
    ring
  · field_simp
    ring

theorem Represents.double {p q : Weighted} {g : Curve.Group} (hp : Represents p g)
    (h : p.double? = some q) : Represents q (g + g) := by
  obtain ⟨weight, point⟩ := hp
  simp only [double?] at h
  split at h
  · cases h
  · rename_i finite
    cases h
    have weight' : ((2 * p.y * p.z % fieldPrime : Nat) : Residue) = 2 * p.y * p.z := by
      rw [ZMod.natCast_mod]
      push_cast
      rfl
    have product : (2 * p.y * p.z : Residue) ≠ 0 := by
      rw [← weight', Ne, cast_eq_zero]
      exact finite
    -- A tangent is vertical only where `y` is zero, and then so is the new weight.
    have y_ne_zero : (p.y : Residue) ≠ 0 :=
      right_ne_zero_of_mul (left_ne_zero_of_mul product)
    refine ⟨weight' ▸ product, ?_⟩
    rw [third_self_of_ofResidues point (div_ne_zero y_ne_zero (pow_ne_zero 3 weight)),
      third_tangent y_ne_zero weight rfl rfl rfl]
    simp only [ZMod.natCast_mod, Nat.cast_add, Nat.cast_mul, cast_negate, Nat.cast_ofNat]
    congr 1 <;> ring

theorem cast_gap (p q : Weighted) :
    ((gap p q : Nat) : Residue) = q.x * (p.z : Residue) ^ 2 - p.x * (q.z : Residue) ^ 2 := by
  simp only [gap, ZMod.natCast_mod, Nat.cast_add, Nat.cast_mul, cast_negate]
  ring

theorem gap_eq_zero_iff_cast (p q : Weighted) :
    gap p q = 0 ↔ q.x * (p.z : Residue) ^ 2 - p.x * (q.z : Residue) ^ 2 = 0 := by
  rw [← cast_gap, gap, cast_eq_zero]

theorem gap_eq_zero_iff {p q : Weighted} {g h : Curve.Group} (hp : Represents p g)
    (hq : Represents q h) : gap p q = 0 ↔ (ofGroup g).x? = (ofGroup h).x? := by
  rw [gap_eq_zero_iff_cast, sub_eq_zero, hp.point_eq, hq.point_eq, ofResidues, ofResidues, Point.x?,
    Point.x?, Option.some.injEq, ofResidue_inj,
    div_eq_div_iff (pow_ne_zero 2 hp.weight_ne_zero) (pow_ne_zero 2 hq.weight_ne_zero)]
  exact eq_comm

theorem Represents.add {p q : Weighted} {g h : Curve.Group} (hp : Represents p g)
    (hq : Represents q h) (apart : gap p q ≠ 0) : Represents (add p q) (g + h) := by
  have gap_ne_zero : q.x * (p.z : Residue) ^ 2 - p.x * (q.z : Residue) ^ 2 ≠ 0 :=
    mt (gap_eq_zero_iff_cast p q).mpr apart
  have x_ne : (p.x : Residue) / (p.z : Residue) ^ 2 ≠ q.x / (q.z : Residue) ^ 2 := by
    intro same
    rw [div_eq_div_iff (pow_ne_zero 2 hp.weight_ne_zero) (pow_ne_zero 2 hq.weight_ne_zero)] at same
    exact gap_ne_zero (sub_eq_zero.mpr same.symm)
  refine ⟨?_, ?_⟩
  · simp only [Weighted.add, ZMod.natCast_mod, Nat.cast_mul, cast_gap]
    exact mul_ne_zero (mul_ne_zero gap_ne_zero hp.weight_ne_zero) hq.weight_ne_zero
  · rw [third_of_ofResidues hp.point_eq hq.point_eq x_ne,
      third_chord hp.weight_ne_zero hq.weight_ne_zero gap_ne_zero rfl rfl rfl rfl]
    simp only [Weighted.add, ZMod.natCast_mod, Nat.cast_add, Nat.cast_mul, cast_negate, cast_gap,
      Nat.cast_ofNat]
    congr 1 <;> ring

theorem Represents.finite {p : Weighted} {g : Curve.Group} (hp : Represents p g) :
    (ofGroup g).isInfinity = false := by
  rw [hp.point_eq]
  rfl

theorem Represents.apart {p q : Weighted} {g h : Curve.Group} (hp : Represents p g)
    (hq : Represents q h) (gap_ne_zero : gap p q ≠ 0) : (ofGroup g).apart (ofGroup h) = true :=
  apart_eq_true_iff.mpr ⟨hp.finite, hq.finite, mt (gap_eq_zero_iff hp hq).mpr gap_ne_zero⟩

theorem Represents.ladder {sum base q : Weighted} {g b : Curve.Group} {bits : List Bool}
    (hs : Represents sum g) (hb : Represents base b) (h : ladder? sum base bits = some q) :
    Represents q (g + bitsNumber bits • b) ∧
      circuitLadder? (ofGroup g) (ofGroup b) bits = .ok (ofGroup (g + bitsNumber bits • b)) := by
  induction bits generalizing sum base g b with
  | nil =>
    cases h
    rw [bitsNumber, zero_nsmul, add_zero]
    exact ⟨hs, rfl⟩
  | cons bit rest ih =>
    rw [ladder?] at h
    split at h
    · cases h
    · rename_i gap_ne_zero
      split at h
      · cases h
      · rename_i double doubles
        have next : Represents (if bit then Weighted.add sum base else sum)
            (g + bit.toNat • b) := by
          cases bit with
          | false => rwa [Bool.toNat_false, zero_nsmul, add_zero]
          | true =>
            rw [Bool.toNat_true, one_nsmul]
            exact hs.add hb gap_ne_zero
        rw [circuitLadder?_ofGroup_cons, if_pos (hs.apart hb gap_ne_zero), ← add_bitsNumber_cons]
        exact ih next (hb.double doubles) h

theorem Represents.circuitMultiple {sum base q : Weighted} {g b : Curve.Group} {scalar : Word}
    (hs : Represents sum g) (hb : Represents base b)
    (inRange : scalar ≠ 0 ∧ scalar.toNat < 2 ^ circuitBits)
    (h : ladder? sum base (lowBits scalar.toNat circuitBits) = some q) :
    Represents q (g + scalar.toNat • b) ∧
      circuitMultiple? scalar (ofGroup b) (ofGroup g) =
        .ok (ofGroup (g + scalar.toNat • b)) := by
  have run := hs.ladder hb h
  rw [bitsNumber_circuit inRange.2] at run
  rw [circuitMultiple?_eq_circuitLadder? inRange.1 inRange.2 hb.finite hs.finite]
  exact run

theorem eq_of_same {p q : Weighted} {g h : Curve.Group} (hp : Represents p g)
    (hq : Represents q h) (equal : same p q = true) : g = h := by
  rw [same, Bool.and_eq_true, beq_iff_eq, beq_iff_eq] at equal
  have x_eq := sub_eq_zero.mp ((gap_eq_zero_iff_cast p q).mp equal.1)
  have y_eq : (p.y : Residue) * (q.z : Residue) ^ 3 = q.y * (p.z : Residue) ^ 3 := by
    have casts := congrArg (Nat.cast : Nat → Residue) equal.2
    simp only [ZMod.natCast_mod, Nat.cast_mul] at casts
    rw [pow_three', pow_three']
    exact casts
  apply ofGroup_injective
  rw [hp.point_eq, hq.point_eq]
  congr 1
  · rw [div_eq_div_iff (pow_ne_zero 2 hp.weight_ne_zero) (pow_ne_zero 2 hq.weight_ne_zero)]
    exact x_eq.symm
  · rw [div_eq_div_iff (pow_ne_zero 3 hp.weight_ne_zero) (pow_ne_zero 3 hq.weight_ne_zero)]
    exact y_eq

theorem ofNat_mod (n : Nat) : Word.ofNat (n % fieldPrime) = ofResidue n := by
  rw [ofResidue, ZMod.val_natCast]

theorem Represents.x?_eq {p : Weighted} {g : Curve.Group} (hp : Represents p g) {w : Word}
    (h : p.x? = .ok w) : (ofGroup g).x? = some w := by
  have square : ((p.z * p.z : Nat) : Residue) = (p.z : Residue) ^ 2 := by
    rw [Nat.cast_mul, sq]
  rw [Weighted.x?, ofNat_mod, ofNat_mod, square,
    Field.div?_ofResidue _ (pow_ne_zero 2 hp.weight_ne_zero)] at h
  rw [hp.point_eq, ← Except.ok.inj h, ofResidues, Point.x?]

end Weighted
end StarkSigning

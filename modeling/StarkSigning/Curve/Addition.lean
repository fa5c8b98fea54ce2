import StarkSigning.Curve.Point

/-!
# StarkSigning.Curve.Addition

The chord-and-tangent law. Coordinates are reduced first and the curve equation is not asked for,
so any two points may be added. Points with one `x` and different `y` sum to infinity, as does a
point with `y = 0` doubled; in every other case the slope has a nonzero denominator.
-/

namespace StarkSigning
namespace Point

/-- The third point of the line of this slope through the first point, reflected. -/
def ofSlope (slope x₁ y₁ x₂ : Word) : Point :=
  let x₃ := Field.sub (Field.sub (Field.square slope) x₁) x₂
  let y₃ := Field.sub (Field.mul slope (Field.sub x₁ x₃)) y₁
  affine x₃ y₃

/-- The double of a finite point, with the slope of the tangent. -/
def tangent? (x y : Word) : Except Error Point :=
  let x := Field.reduce x
  let y := Field.reduce y
  if y = 0 then .ok infinity
  else
    let numerator := Field.add (Field.mul 3 (Field.square x)) Curve.alpha
    match Field.div? numerator (Field.add y y) with
    | .error e => .error e
    | .ok slope => .ok (ofSlope slope x y x)

/-- The sum of two finite points, with the slope of the chord. -/
def chord? (x₁ y₁ x₂ y₂ : Word) : Except Error Point :=
  let x₁ := Field.reduce x₁
  let y₁ := Field.reduce y₁
  let x₂ := Field.reduce x₂
  let y₂ := Field.reduce y₂
  if x₁ = x₂ then
    if y₁ = y₂ then tangent? x₁ y₁ else .ok infinity
  else
    match Field.div? (Field.sub y₂ y₁) (Field.sub x₂ x₁) with
    | .error e => .error e
    | .ok slope => .ok (ofSlope slope x₁ y₁ x₂)

def add? : Point → Point → Except Error Point
  | infinity, q => .ok q
  | p, infinity => .ok p
  | affine x₁ y₁, affine x₂ y₂ => chord? x₁ y₁ x₂ y₂

def double? : Point → Except Error Point
  | infinity => .ok infinity
  | affine x y => tangent? x y

end Point
end StarkSigning

import StarkSigning.Field

/-!
# StarkSigning.Curve.Point

Points of the curve `y ^ 2 = x ^ 3 + x + beta` over the STARK field, in affine coordinates, with
the point at infinity as a constructor of its own. Coordinates are raw words: a point may lie off
the curve and its coordinates need not be reduced, until `ofCoordinates?` has accepted them.
-/

namespace StarkSigning

inductive Point where
  | infinity
  | affine (x y : Word)
deriving DecidableEq

namespace Curve

/-- The coefficient of `x`. -/
def alpha : Word := 1

/-- The constant coefficient. -/
def beta : Word :=
  0x6f21413efbe40de150e596d72f7a8c5609ad26c15c915c1f4cdfcb99cee9e89

/-- The number of points of the curve, a prime. -/
def order : Nat :=
  0x800000000000010ffffffffffffffffb781126dcae7b2321e66a241adc64d2f

def orderWord : Word :=
  Word.ofNat order

/-- The base point of keys and signatures. -/
def generator : Point :=
  .affine 0x1ef15c18599971b7beced415a40f0c7deacfd9b0d1819e03d723d8bc943cfca
    0x5668060aa49730b7be4801df46ec62de53ecd11abe43a32873000c36e8dc1f

/-- The start of fixed-length sums, which keeps them away from infinity. -/
def shift : Point :=
  .affine 0x49ee3eba8c1600700ee1b87eb599f16716b0b1022947733551fde4050ca6804
    0x3ca0cfe4b3bc6ddf346d49d06ea0ed34e621062c0e056c1d0405d266e10268a

/-- The negation of the shift point. -/
def minusShift : Point :=
  .affine 0x49ee3eba8c1600700ee1b87eb599f16716b0b1022947733551fde4050ca6804
    0x435f301b4c439330cb92b62f915f12cb19def9d3f1fa93e2fbfa2d991efd977

/-- Base of the low 248 bits of the first input to the Pedersen hash. -/
def pedersenBase0 : Point :=
  .affine 0x234287dcbaffe7f969c748655fca9e58fa8120b6d56eb0c1080d17957ebe47b
    0x3b056f100f96fb21e889527d41f4e39940135dd7a6c94cc6ed0268ee89e5615

/-- Base of the high bits of the first input. -/
def pedersenBase1 : Point :=
  .affine 0x4fa56f376c83db33f9dab2656558f3399099ec1de5e3018b7a6932dba8aa378
    0x3fa0984c931c9e38113e0c0e47e4401562761f92a7a23b45168f4e80ff5b54d

/-- Base of the low 248 bits of the second input. -/
def pedersenBase2 : Point :=
  .affine 0x4ba4cc166be8dec764910f75b45f74b40c690c74709e90f3aa372f0bd2d6997
    0x40301cf5c1751f4b971e46c4ede85fcac5c59a5ce5ae7c48151f27b24b219c

/-- Base of the high bits of the second input. -/
def pedersenBase3 : Point :=
  .affine 0x54302dcb0e6cc1c6e44cca8f61a63bb2ca65048d53fb325d36ff12c49a58202
    0x1b77b3e37d13504b348046268d8ae25ce98ad783c25561a879dcc77e99c2426

end Curve

namespace Point

def x? : Point → Option Word
  | infinity => none
  | affine x _ => some x

def isInfinity : Point → Bool
  | infinity => true
  | affine _ _ => false

/-- Whether the coordinates satisfy the curve equation; infinity does. -/
def onCurve : Point → Bool
  | infinity => true
  | affine x y =>
    let cube := Field.mul (Field.square x) x
    let right := Field.add (Field.add cube (Field.mul Curve.alpha x)) Curve.beta
    Field.square y = right

/-- The finite point with these coordinates, which must be reduced and lie on the curve. -/
def ofCoordinates? (x y : Word) : Except Error Point :=
  if fieldPrime ≤ x.toNat then .error (.outOfRange .pointX x.toNat)
  else if fieldPrime ≤ y.toNat then .error (.outOfRange .pointY y.toNat)
  else if (affine x y).onCurve then .ok (affine x y)
  else .error (.point .offCurve)

def neg : Point → Point
  | infinity => infinity
  | affine x y => affine x (Field.neg y)

end Point
end StarkSigning

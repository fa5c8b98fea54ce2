import StarkSigning.Signing.Signature

/-!
# StarkSigning.Signing.Verification

Verification as a proof circuit carries it out, with fixed-length multiples and the shifts that
they need, so that it accepts exactly the signatures that the circuit does. Components out of
range and keys that are no finite points of the curve are errors; a signature that does not match
is not. A key and its negation share their `x`, and a signature for either is accepted.
-/

namespace StarkSigning
namespace Signature

/-- The `x` of `w * (hash * generator + r * publicKey)`; none at infinity. -/
def recomputeX? (hash r w : Word) (publicKey : Point) : Except Error (Option Word) := do
  let hashPart ← Point.circuitMultiple? hash Curve.generator Curve.minusShift
  let keyPart ← Point.circuitMultiple? r publicKey Curve.shift
  let sum ← hashPart.add? keyPart
  let shifted ← Point.circuitMultiple? w sum Curve.shift
  let point ← shifted.add? Curve.minusShift
  return point.x?

/-- Whether the recomputed `x` is `r`; a refusal of the circuit counts as a mismatch. -/
def matchesKey (hash r w : Word) (publicKey : Point) : Bool :=
  match recomputeX? hash r w publicKey with
  | .ok (some x) => x = r
  | _ => false

/-- Whether the signature is one of the message hash under the key or its negation. -/
def verify? (publicKey : Point) (messageHash : Felt) (sig : Signature) : Except Error Bool := do
  requireBelow .signatureR sig.r.val elementBound
  requireBelow .signatureS sig.s.val Curve.order
  requireBelow .messageHash messageHash.val elementBound
  if publicKey.isInfinity || !publicKey.onCurve then .error (.point .unusablePublicKey)
  let w ← Modular.inverse? sig.s.toWord Curve.orderWord
  requireBelow .signatureW w.toNat elementBound
  let matchesFor := matchesKey messageHash.toWord sig.r.toWord w
  return matchesFor publicKey || matchesFor publicKey.neg

end Signature
end StarkSigning

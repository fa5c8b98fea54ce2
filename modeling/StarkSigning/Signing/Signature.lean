import StarkSigning.Curve.Multiple
import StarkSigning.Signing.Nonce

/-!
# StarkSigning.Signing.Signature

Keys and signatures. A private key is a number from one up to below the group order, a message
hash one from one up to below `2 ^ 251`. With a nonce `k`, `r` is the `x` of `k` times the
generator and `s` the inverse of `w = k / (r * key + hash)`, modulo the order; `r` and `w` must
lie below `2 ^ 251`, because a proof circuit reads them. A nonce that gives no signature is
followed by that of the next seed.

`signWith?` takes the nonces as a function; `sign?` takes them from `Nonce.derive`.
-/

namespace StarkSigning

structure Signature where
  r : Felt
  s : Felt
deriving DecidableEq

/-- The bound of message hashes, of `r` and of `w`, which is `2 ^ 251`. -/
def elementBound : Nat :=
  0x800000000000000000000000000000000000000000000000000000000000000

/-- Seeds tried for one signature unless the caller says otherwise. -/
def maxSignAttempts : Nat := 64

/-- Requires a number from one up to below the bound. -/
def requireBelow (what : Quantity) (value bound : Nat) : Except Error Unit :=
  if value = 0 ∨ bound ≤ value then .error (.outOfRange what value) else .ok ()

/-- The private key times the generator. -/
def publicKey? (privateKey : Felt) : Except Error Point := do
  requireBelow .privateKey privateKey.val Curve.order
  match ← Point.multiple? privateKey.toWord Curve.generator with
  | .infinity => .error (.point .infinitePublicKey)
  | .affine x y => .ok (.affine x y)

namespace Signature

def toText (sig : Signature) : String :=
  "(" ++ sig.r.toHex ++ ", " ++ sig.s.toHex ++ ")"

/-- One attempt with a fixed nonce; any error makes the nonce unusable. -/
def ofNonce? (privateKey messageHash : Felt) (k : Word) : Except Error Signature := do
  match ← Point.multiple? k Curve.generator with
  | .infinity => .error (.point .infiniteNoncePoint)
  | .affine r _ =>
    requireBelow .signatureR r.toNat elementBound
    let sum := Modular.add (Modular.mul r privateKey.toWord Curve.orderWord) messageHash.toWord
      Curve.orderWord
    let w ← Modular.div? k sum Curve.orderWord
    requireBelow .signatureW w.toNat elementBound
    let s ← Modular.inverse? w Curve.orderWord
    return ⟨← r.toFelt?, ← s.toFelt?⟩

/-- The signature of the first usable nonce among the next `left` attempts. -/
def firstUsable? (nonce : Nat → Word) (privateKey messageHash : Felt) :
    Nat → Nat → Option Signature
  | 0, _ => none
  | left + 1, attempt =>
    match ofNonce? privateKey messageHash (nonce attempt) with
    | .ok sig => some sig
    | .error _ => firstUsable? nonce privateKey messageHash left (attempt + 1)

/-- Attempt number `a` takes the nonce of the seed plus `a`. -/
def signWith? (nonce : Felt → Felt → Word → Word) (privateKey messageHash seed : Felt)
    (budget : Nat) : Except Error Signature := do
  requireBelow .messageHash messageHash.val elementBound
  requireBelow .privateKey privateKey.val Curve.order
  let nonceOf (attempt : Nat) : Word :=
    nonce messageHash privateKey (Word.ofNat (seed.val + attempt))
  match firstUsable? nonceOf privateKey messageHash budget 0 with
  | some sig => .ok sig
  | none => .error (.nonceExhausted budget)

def sign? (privateKey messageHash seed : Felt) (budget : Nat) : Except Error Signature :=
  signWith? Nonce.derive privateKey messageHash seed budget

/-- A signature is written as a record of `r` and `s`. -/
def ofJson? : Json → Except Json.DecodeError Signature
  | .object members => do
    let r ← Json.Decode.member Felt.ofJson? "r" members
    let s ← Json.Decode.member Felt.ofJson? "s" members
    return ⟨← Json.Decode.required "r" r, ← Json.Decode.required "s" s⟩
  | .array items => do
    let r ← Json.Decode.item Felt.ofJson? "Signature" 2 0 items
    let s ← Json.Decode.item Felt.ofJson? "Signature" 2 1 items
    Json.Decode.noMore 2 items
    return ⟨r, s⟩
  | other => .error (.invalidType other (.record "Signature"))

def toJson (sig : Signature) : Json :=
  .object [("r", sig.r.toJson), ("s", sig.s.toJson)]

end Signature
end StarkSigning

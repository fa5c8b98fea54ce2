import StarkSigning.Json.Decode
import StarkSigning.Word

/-!
# StarkSigning.Error

Why an operation gives no result. Each failure is one constructor with its data; `kind` sorts
them into six kinds, and `message` is the only place that words them. A signature that does not
match is no failure.

* `FeltError.kind_cases`: two of the kinds are about elements.
-/

namespace StarkSigning

/-- Quantities with a domain of their own. -/
inductive Quantity where
  | pointX
  | pointY
  | modulus
  | circuitScalar
  | pedersenInputCount
  | privateKey
  | messageHash
  | signatureR
  | signatureS
  | signatureW
deriving DecidableEq

/-- Why a point cannot be used or was not reached. -/
inductive PointFault where
  | offCurve
  | infiniteCircuitInput
  | circuitCollision
  | pedersenCollision
  | pedersenInfinity
  | infinitePublicKey
  | infiniteNoncePoint
  | unusablePublicKey
deriving DecidableEq

/-- Why a schema, or a value under a schema, has no encoding. -/
inductive SchemaFault where
  | primitiveRedeclared (name : String)
  | declaredTwice (name : String)
  | primaryUndeclared (name : String)
  | domainUndeclared
  | unknownDomainField (name : String)
  | domainFieldType (name typeName : String)
  | domainValue (name : String) (cause : FeltError)
  | undeclared (name : String)
  | cycle (path : List String) (name : String)
  | structExpected (name shape : String)
  | missingField (name field : String)
  | arrayExpected (shape : String)
  | scalarExpected (shape : String)
  /-- A fault inside the value of a field. -/
  | inField (name field : String) (cause : SchemaFault)
  | numberNotUnsigned (n : Json.Number)
  | nullValue
  | domainMissing
  | malformedDomain (cause : Json.DecodeError)

/-- Why a document's text was refused. -/
inductive DocumentFault where
  | notJson
  | undecodable (cause : Json.DecodeError)

inductive Error where
  | felt (cause : FeltError)
  | outOfRange (what : Quantity) (value : Nat)
  | notInvertible (value modulus : Word)
  | point (fault : PointFault)
  | schema (fault : SchemaFault)
  | nonceExhausted (attempts : Nat)
  | document (fault : DocumentFault)

/-- The kinds by which callers tell failures apart. -/
inductive ErrorKind where
  | outOfRange
  | notInvertible
  | invalidPoint
  | typeResolution
  | nonceExhausted
  | invalidEncoding
deriving DecidableEq

namespace Quantity

def phrase : Quantity → String
  | pointX => "point x-coordinate"
  | pointY => "point y-coordinate"
  | modulus => "modulus"
  | circuitScalar => "circuit scalar"
  | pedersenInputCount => "pedersen input count"
  | privateKey => "private key"
  | messageHash => "message hash"
  | signatureR => "r"
  | signatureS => "s"
  | signatureW => "w"

end Quantity

namespace PointFault

def phrase : PointFault → String
  | offCurve => "coordinates do not satisfy the curve equation"
  | infiniteCircuitInput => "circuit multiplication needs finite points"
  | circuitCollision => "accumulator collided with the doubled base point"
  | pedersenCollision => "pedersen accumulator collided with a constant point"
  | pedersenInfinity => "pedersen accumulator reached infinity"
  | infinitePublicKey => "public key is the point at infinity"
  | infiniteNoncePoint => "nonce point is the point at infinity"
  | unusablePublicKey => "public key is not a finite curve point"

end PointFault

namespace FeltError

def kind : FeltError → ErrorKind
  | outOfRange _ => .outOfRange
  | tooManyBytes _ => .outOfRange
  | noHexDigits _ => .invalidEncoding
  | tooManyHexDigits _ => .invalidEncoding
  | invalidHexDigit _ _ _ => .invalidEncoding
  | notDecimal _ => .invalidEncoding
  | decimalTooLarge _ => .invalidEncoding

theorem kind_cases (cause : FeltError) :
    cause.kind = .outOfRange ∨ cause.kind = .invalidEncoding := by
  cases cause with
  | outOfRange _ | tooManyBytes _ => exact Or.inl rfl
  | noHexDigits _ | tooManyHexDigits _ | invalidHexDigit _ _ _ | notDecimal _ | decimalTooLarge _ =>
    exact Or.inr rfl

end FeltError

namespace SchemaFault

/-- A name as messages mark it. -/
def marked (name : String) : String :=
  "`" ++ name ++ "`"

def phrase : SchemaFault → String
  | primitiveRedeclared n => marked n ++ " is a primitive type and cannot be redeclared"
  | declaredTwice n => "type " ++ marked n ++ " is declared twice"
  | primaryUndeclared n => "primary type " ++ marked n ++ " is not declared"
  | domainUndeclared => "domain type `StarkNetDomain` is not declared"
  | unknownDomainField n => "malformed domain: unknown field " ++ marked n
  | domainFieldType n t =>
    "malformed domain: field " ++ marked n ++ " must be `felt`, found " ++ marked t
  | domainValue n cause => "malformed domain: " ++ marked n ++ ": " ++ cause.message
  | undeclared n => "type " ++ marked n ++ " is not declared"
  | cycle path n => "cyclic type reference " ++ " -> ".intercalate path ++ " -> " ++ n
  | structExpected n shape => "type " ++ marked n ++ " expects a struct value, got " ++ shape
  | missingField n field => marked n ++ " value is missing field " ++ marked field
  | arrayExpected shape => "`felt*` expects an array, got " ++ shape
  | scalarExpected shape => shape ++ " value has no single field element encoding"
  | inField n field cause => "field " ++ marked (n ++ "." ++ field) ++ ": " ++ cause.phrase
  | numberNotUnsigned n => "number " ++ n.text ++ " is not an unsigned 64-bit integer"
  | nullValue => "null has no typed data encoding"
  | domainMissing => "typed data document has no domain"
  | malformedDomain cause => "malformed domain: " ++ cause.message

end SchemaFault

namespace DocumentFault

def phrase : DocumentFault → String
  | notJson => "JSON syntax"
  | undecodable cause => cause.message

end DocumentFault

namespace Error

def kind : Error → ErrorKind
  | felt cause => cause.kind
  | outOfRange _ _ => .outOfRange
  | notInvertible _ _ => .notInvertible
  | point _ => .invalidPoint
  | schema _ => .typeResolution
  | nonceExhausted _ => .nonceExhausted
  | document _ => .invalidEncoding

def message : Error → String
  | felt cause => cause.message
  | outOfRange what value => Text.outOfRange what.phrase value
  | notInvertible value modulus => value.toHex ++ " is not invertible modulo " ++ modulus.toHex
  | point fault => "invalid curve point: " ++ fault.phrase
  | schema fault => "type resolution failed: " ++ fault.phrase
  | nonceExhausted attempts =>
    "no valid signature nonce found after " ++ Nat.repr attempts ++ " attempts"
  | document fault => Text.invalidEncoding "typed data document" fault.phrase

end Error
end StarkSigning

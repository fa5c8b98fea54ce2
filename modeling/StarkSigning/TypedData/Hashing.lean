import StarkSigning.TypedData.Schema

/-!
# StarkSigning.TypedData.Hashing

Hashes of values under a schema. The hash of a record is that of the list of its type's hash and
the encodings of the declared fields in declared order; fields that the type does not declare do
not count. An element field is encoded as the element, an array field as the hash of the list of
its elements, any other field as the hash of the record below it.

A fault below a field is reported with the path of fields to it, except where a scalar itself has
no encoding.
-/

namespace StarkSigning

/-- The fault as seen from the field of the type that it lies below. -/
def Error.inField (typeName field : String) : Error → Error
  | schema fault => schema (.inField typeName field fault)
  | other => other

namespace Schema

mutual

/-- The hash of a record under the type of this name. -/
def structHash? (s : Schema) (typeName : String) : TypedValue → Except Error Felt
  | .record fields => do
    let fieldDecls ← (s.resolve? typeName).mapError .schema
    let typeHash ← (s.typeHash? typeName).mapError .schema
    let encodings ← fieldDecls.mapM fun f =>
      match fieldEncoding? s f.typeName f.name fields with
      | none => .error (.schema (.missingField typeName f.name))
      | some (.error e) => .error (e.inField typeName f.name)
      | some (.ok encoding) => .ok encoding
    Pedersen.hashWithLength? (typeHash :: encodings)
  | other => do
    let _ ← (s.resolve? typeName).mapError .schema
    .error (.schema (.structExpected typeName other.shape))

/-- The encoding, under a type, of the field of this name; none where there is no such field. -/
def fieldEncoding? (s : Schema) (typeName name : String) :
    List (String × TypedValue) → Option (Except Error Felt)
  | [] => none
  | (key, v) :: rest =>
    if key = name then
      some (
        if typeName = TypeName.felt then v.toFelt?
        else if typeName = TypeName.feltArray then v.arrayHash?
        else structHash? s typeName v)
    else fieldEncoding? s typeName name rest

end

/-- The hash of the domain separator. -/
def domainHash? (s : Schema) : Except Error Felt :=
  s.structHash? TypeName.domain s.domain.toValue

/-- The short string in front of every message. -/
def messagePrefix : String := "StarkNet Message"

/-- The hash that an account signs for a value of the primary type. -/
def messageHash? (s : Schema) (account : Felt) (v : TypedValue) : Except Error Felt := do
  let first ← (Felt.ofShortString? messagePrefix).mapError .felt
  let domainHash ← s.domainHash?
  let valueHash ← s.structHash? s.primary v
  Pedersen.hashWithLength? [first, domainHash, account, valueHash]

end Schema
end StarkSigning

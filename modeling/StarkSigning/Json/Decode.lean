import StarkSigning.Felt.Reading
import StarkSigning.Json.Value

/-!
# StarkSigning.Json.Decode

Turning JSON values into domain values. A record is written as an object, unknown members aside,
or as the array of its fields in declared order. Of an object all members present are decoded, in
the order of their keys, before a missing one is reported; missing ones are reported in declared
order. Of an array a missing item is reported where it is needed, a surplus one at the end.
-/

namespace StarkSigning
namespace Json

/-- What a place in a document calls for. -/
inductive Expected where
  | text
  | sequence
  | mapping
  | felt
  | textOrNumber
  | record (name : String)
deriving DecidableEq

/-- What length an array written for a record must have. -/
inductive ExpectedLength where
  | fields (record : String) (count : Nat)
  | fewer
deriving DecidableEq

inductive DecodeError where
  | missingField (name : String)
  | invalidType (got : Json) (expected : Expected)
  | invalidLength (count : Nat) (expected : ExpectedLength)
  | invalidFelt (cause : FeltError)

def Expected.phrase : Expected → String
  | text => "a string"
  | sequence => "a sequence"
  | mapping => "a map"
  | felt => "a hex string, decimal string or unsigned integer below the STARK prime"
  | textOrNumber => "a string or an unsigned integer"
  | record name => "struct " ++ name

def ExpectedLength.phrase : ExpectedLength → String
  | fields record count => "struct " ++ record ++ " with " ++ Nat.repr count ++ " elements"
  | fewer => "fewer elements in array"

def DecodeError.message : DecodeError → String
  | missingField name => "missing field `" ++ name ++ "`"
  | invalidType got expected =>
    "invalid type: " ++ got.describe ++ ", expected " ++ expected.phrase
  | invalidLength count expected =>
    "invalid length " ++ Nat.repr count ++ ", expected " ++ expected.phrase
  | invalidFelt cause => cause.message

namespace Decode

def text : Json → Except DecodeError String
  | .string s => .ok s
  | other => .error (.invalidType other .text)

/-- A string as it stands, or an unsigned integer by its decimal numeral. -/
def textOrNumber : Json → Except DecodeError String
  | .string s => .ok s
  | .number (.natural n) => .ok (Nat.repr n.toNat)
  | other => .error (.invalidType other .textOrNumber)

/-- A member that may be absent; one that is present must decode. -/
def member {α : Type} (decode : Json → Except DecodeError α) (key : String)
    (members : List (String × Json)) : Except DecodeError (Option α) :=
  match Table.find? key members with
  | none => .ok none
  | some j => (decode j).map some

def required {α : Type} (key : String) : Option α → Except DecodeError α
  | some value => .ok value
  | none => .error (.missingField key)

/-- The item for field number `index` of a record of `count` fields. -/
def item {α : Type} (decode : Json → Except DecodeError α) (record : String) (count index : Nat)
    (items : List Json) : Except DecodeError α :=
  match items[index]? with
  | none => .error (.invalidLength index (.fields record count))
  | some j => decode j

/-- Refuses an array with more items than the record has fields. -/
def noMore (count : Nat) (items : List Json) : Except DecodeError Unit :=
  if count < items.length then .error (.invalidLength items.length .fewer) else .ok ()

end Decode
end Json

namespace Felt

/-- A field element is written as a string in any of its text forms, or as an unsigned integer. -/
def ofJson? : Json → Except Json.DecodeError Felt
  | .string s => (ofString? s).mapError .invalidFelt
  | .number (.natural n) => .ok (ofUInt64 n)
  | other => .error (.invalidType other .felt)

def toJson (e : Felt) : Json :=
  .string e.toHex

end Felt
end StarkSigning

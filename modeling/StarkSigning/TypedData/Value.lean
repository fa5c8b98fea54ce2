import StarkSigning.Hash.Pedersen

/-!
# StarkSigning.TypedData.Value

The values of typed messages. A scalar knows how it becomes a field element: as the element it is,
as the bytes of a short string, or as hexadecimal digits. Arrays and records are not elements
themselves; a record lists its fields by name, and the first pair with a name counts.

A text of unknown meaning is hexadecimal if it has the marker, a number if it is a decimal numeral
of the field, and a short string otherwise. A numeral too large for the field has more digits than
a short string has bytes, so it is never taken by its characters.
-/

namespace StarkSigning

inductive Scalar where
  | felt (e : Felt)
  | shortString (s : String)
  | hex (s : String)
deriving DecidableEq

namespace Scalar

/-- The scalar that a text stands for. -/
def infer (s : String) : Scalar :=
  if Text.hasHexMarker s.toList then hex s
  else
    match Felt.ofDecimal? s with
    | .ok e => felt e
    | .error _ => shortString s

def toFelt? : Scalar → Except FeltError Felt
  | felt e => .ok e
  | shortString s => Felt.ofShortString? s
  | hex s => Felt.ofHex? s

def shape : Scalar → String
  | felt _ => "felt"
  | shortString _ => "short string"
  | hex _ => "hex"

end Scalar

inductive TypedValue where
  | scalar (s : Scalar)
  | array (items : List TypedValue)
  | record (fields : List (String × TypedValue))

namespace TypedValue

def infer (s : String) : TypedValue :=
  scalar (.infer s)

/-- The record with these fields, sorted by name; later pairs win. -/
def ofFields (fields : List (String × TypedValue)) : TypedValue :=
  record (Table.ofList fields)

def shape : TypedValue → String
  | scalar s => s.shape
  | array _ => "array"
  | record _ => "struct"

/-- The element that a scalar stands for. -/
def toFelt? : TypedValue → Except Error Felt
  | scalar s => s.toFelt?.mapError .felt
  | other => .error (.schema (.scalarExpected other.shape))

/-- The elements of the items, in order. -/
def toFelts? : List TypedValue → Except Error (List Felt)
  | [] => .ok []
  | v :: rest =>
    match v.toFelt? with
    | .error e => .error e
    | .ok e =>
      match toFelts? rest with
      | .error e => .error e
      | .ok es => .ok (e :: es)

/-- The hash of an array of scalars. -/
def arrayHash? : TypedValue → Except Error Felt
  | array items =>
    match toFelts? items with
    | .error e => .error e
    | .ok es => Pedersen.hashWithLength? es
  | other => .error (.schema (.arrayExpected other.shape))

mutual

/-- Strings are inferred, unsigned integers and truth values are elements, and arrays and objects
keep their shape. -/
def ofJson? : Json → Except SchemaFault TypedValue
  | .string s => .ok (infer s)
  | .number (.natural n) => .ok (scalar (.felt (Felt.ofUInt64 n)))
  | .number n => .error (.numberNotUnsigned n)
  | .bool b => .ok (scalar (.felt (if b then Felt.one else Felt.zero)))
  | .array items => (ofItems? items).map array
  | .object members => (ofMembers? members).map record
  | .null => .error .nullValue

def ofItems? : List Json → Except SchemaFault (List TypedValue)
  | [] => .ok []
  | j :: rest =>
    match ofJson? j with
    | .error e => .error e
    | .ok v => (ofItems? rest).map (v :: ·)

def ofMembers? : List (String × Json) → Except SchemaFault (List (String × TypedValue))
  | [] => .ok []
  | (key, j) :: rest =>
    match ofJson? j with
    | .error e => .error e
    | .ok v => (ofMembers? rest).map ((key, v) :: ·)

end

end TypedValue
end StarkSigning

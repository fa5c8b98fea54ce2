import StarkSigning.Error

/-!
# StarkSigning.TypedData.TypeDef

Declared types: a name and an ordered list of fields, each with a name and a type name. Two type
names are primitive, an element and an array of elements; every other one refers to a declared
type. The type of the domain has a second accepted spelling, which is replaced by the first.
-/

namespace StarkSigning

structure FieldDecl where
  name : String
  typeName : String
deriving DecidableEq

abbrev TypeDef := List FieldDecl

namespace TypeName

def felt : String := "felt"

def feltArray : String := "felt*"

/-- The domain type, as it enters all texts. -/
def domain : String := "StarkNetDomain"

/-- The other accepted spelling of the domain type. -/
def domainAlias : String := "StarknetDomain"

def isPrimitive (name : String) : Bool :=
  name = felt || name = feltArray

def canonical (name : String) : String :=
  if name = domainAlias then domain else name

end TypeName

namespace FieldDecl

def canonical (f : FieldDecl) : FieldDecl :=
  ⟨f.name, TypeName.canonical f.typeName⟩

/-- The text of the field inside the text of its type. -/
def text (f : FieldDecl) : String :=
  f.name ++ ":" ++ f.typeName

def ofJson? : Json → Except Json.DecodeError FieldDecl
  | .object members => do
    let name ← Json.Decode.member Json.Decode.text "name" members
    let typeName ← Json.Decode.member Json.Decode.text "type" members
    return ⟨← Json.Decode.required "name" name, ← Json.Decode.required "type" typeName⟩
  | .array items => do
    let name ← Json.Decode.item Json.Decode.text "Definition" 2 0 items
    let typeName ← Json.Decode.item Json.Decode.text "Definition" 2 1 items
    Json.Decode.noMore 2 items
    return ⟨name, typeName⟩
  | other => .error (.invalidType other (.record "Definition"))

def toJson (f : FieldDecl) : Json :=
  .object [("name", .string f.name), ("type", .string f.typeName)]

end FieldDecl

namespace TypeDef

/-- The text of a type of this name. -/
def text (name : String) (d : TypeDef) : String :=
  name ++ "(" ++ ",".intercalate (d.map FieldDecl.text) ++ ")"

def ofItems? : List Json → Except Json.DecodeError TypeDef
  | [] => .ok []
  | j :: rest =>
    match FieldDecl.ofJson? j with
    | .error e => .error e
    | .ok f => (ofItems? rest).map (f :: ·)

def ofJson? : Json → Except Json.DecodeError TypeDef
  | .array items => ofItems? items
  | other => .error (.invalidType other .sequence)

def toJson (d : TypeDef) : Json :=
  .array (d.map FieldDecl.toJson)

/-- The types that the members of an object declare. -/
def ofMembers? : List (String × Json) → Except Json.DecodeError (List (String × TypeDef))
  | [] => .ok []
  | (name, j) :: rest =>
    match ofJson? j with
    | .error e => .error e
    | .ok d => (ofMembers? rest).map ((name, d) :: ·)

def tableOfJson? : Json → Except Json.DecodeError (List (String × TypeDef))
  | .object members => ofMembers? members
  | other => .error (.invalidType other .mapping)

end TypeDef
end StarkSigning

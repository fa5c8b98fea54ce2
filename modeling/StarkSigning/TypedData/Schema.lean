import StarkSigning.Hash.Selector
import StarkSigning.TypedData.Dependencies
import StarkSigning.TypedData.Domain

/-!
# StarkSigning.TypedData.Schema

A schema: declared types, the primary one among them, and a domain. `ofTypes?` accepts only types
whose full texts exist and a domain that its type can encode; of several faults the first in this
order is reported:

* a primitive type declared, or a type declared twice, in the order of declaration;
* the primary type or the domain type not declared;
* a field of the domain type that is unknown, not an element, or has a value without an encoding;
* a reference to an undeclared type, or a cycle, in the order of the type names.
-/

namespace StarkSigning

structure Schema where
  types : Table TypeDef
  primary : String
  domain : Domain

namespace Schema

/-- Adds the declarations to the table under canonical names. -/
def declare? (types : Table TypeDef) : List (String × TypeDef) → Except SchemaFault (Table TypeDef)
  | [] => .ok types
  | (given, d) :: rest =>
    let name := TypeName.canonical given
    if TypeName.isPrimitive name then .error (.primitiveRedeclared name)
    else if (Table.find? name types).isSome then .error (.declaredTwice name)
    else declare? (Table.insert name (d.map FieldDecl.canonical) types) rest

/-- Requires every field of the domain type to read a part of the domain as an element. -/
def checkDomain? (domain : Domain) : List FieldDecl → Except SchemaFault Unit
  | [] => .ok ()
  | f :: rest =>
    match domain.part? f.name with
    | none => .error (.unknownDomainField f.name)
    | some part =>
      if f.typeName ≠ TypeName.felt then .error (.domainFieldType f.name f.typeName)
      else
        match (Scalar.infer part).toFelt? with
        | .error cause => .error (.domainValue f.name cause)
        | .ok _ => checkDomain? domain rest

/-- Requires every named type to have a full text. -/
def checkTexts? (types : Table TypeDef) : List String → Except SchemaFault Unit
  | [] => .ok ()
  | name :: rest =>
    match Dependencies.typeText? types name with
    | .error e => .error e
    | .ok _ => checkTexts? types rest

def ofTypes? (declared : List (String × TypeDef)) (primary : String) (domain : Domain) :
    Except SchemaFault Schema := do
  let types ← declare? [] declared
  let primary := TypeName.canonical primary
  if (Table.find? primary types).isNone then .error (.primaryUndeclared primary)
  match Table.find? TypeName.domain types with
  | none => .error .domainUndeclared
  | some fields =>
    checkDomain? domain fields
    checkTexts? types (Table.keys types)
    return ⟨types, primary, domain⟩

/-- The declared type of this name, in either spelling. -/
def typeDef? (s : Schema) (name : String) : Option TypeDef :=
  Table.find? (TypeName.canonical name) s.types

/-- The declared type of this name, which must exist. -/
def resolve? (s : Schema) (name : String) : Except SchemaFault TypeDef :=
  match s.typeDef? name with
  | none => .error (.undeclared name)
  | some d => .ok d

/-- The full text of a type: its own text and those of all types that it refers to. -/
def typeText? (s : Schema) (name : String) : Except SchemaFault String :=
  match s.resolve? name with
  | .error e => .error e
  | .ok _ => Dependencies.typeText? s.types (TypeName.canonical name)

def typeHash? (s : Schema) (name : String) : Except SchemaFault Felt :=
  (s.typeText? name).map Selector.ofName

end Schema
end StarkSigning

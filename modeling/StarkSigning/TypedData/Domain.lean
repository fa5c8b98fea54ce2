import StarkSigning.TypedData.Value

/-!
# StarkSigning.TypedData.Domain

The domain separator: the name, version and chain of the application that asks for a signature.
Each part is a text whose meaning is inferred.
-/

namespace StarkSigning

structure Domain where
  name : String
  version : String
  chainId : String
deriving DecidableEq

namespace Domain

/-- The part that a field of the domain type reads. -/
def part? (d : Domain) (field : String) : Option String :=
  if field = "name" then some d.name
  else if field = "version" then some d.version
  else if field = "chainId" then some d.chainId
  else none

/-- The record of the three parts. -/
def toValue (d : Domain) : TypedValue :=
  .ofFields [("name", .infer d.name), ("version", .infer d.version), ("chainId", .infer d.chainId)]

/-- A part may be written as a number. -/
def ofJson? : Json → Except Json.DecodeError Domain
  | .object members => do
    let chainId ← Json.Decode.member Json.Decode.textOrNumber "chainId" members
    let name ← Json.Decode.member Json.Decode.textOrNumber "name" members
    let version ← Json.Decode.member Json.Decode.textOrNumber "version" members
    return ⟨← Json.Decode.required "name" name, ← Json.Decode.required "version" version,
      ← Json.Decode.required "chainId" chainId⟩
  | .array items => do
    let name ← Json.Decode.item Json.Decode.textOrNumber "Domain" 3 0 items
    let version ← Json.Decode.item Json.Decode.textOrNumber "Domain" 3 1 items
    let chainId ← Json.Decode.item Json.Decode.textOrNumber "Domain" 3 2 items
    Json.Decode.noMore 3 items
    return ⟨name, version, chainId⟩
  | other => .error (.invalidType other (.record "Domain"))

def toJson (d : Domain) : Json :=
  .object [("chainId", .string d.chainId), ("name", .string d.name), ("version", .string d.version)]

end Domain
end StarkSigning

import StarkSigning.Json.Reader
import StarkSigning.TypedData.Hashing

/-!
# StarkSigning.TypedData.Document

Typed data as wallets exchange it: one JSON text with the declared types, the primary type, the
domain and the message. A missing or malformed domain is reported before any other defect of the
document and as a fault of the schema; other defects are faults of the text. The message is kept
as it was written until its parts are asked for.
-/

namespace StarkSigning

structure Document where
  types : List (String × TypeDef)
  primary : String
  domain : Domain
  message : Json

namespace Document

def ofJson? : Json → Except Json.DecodeError Document
  | .object members => do
    let domain ← Json.Decode.member Domain.ofJson? "domain" members
    let message ← Json.Decode.member .ok "message" members
    let primary ← Json.Decode.member Json.Decode.text "primaryType" members
    let types ← Json.Decode.member TypeDef.tableOfJson? "types" members
    return ⟨← Json.Decode.required "types" types, ← Json.Decode.required "primaryType" primary,
      ← Json.Decode.required "domain" domain, ← Json.Decode.required "message" message⟩
  | .array items => do
    let types ← Json.Decode.item TypeDef.tableOfJson? "TypedDataDocument" 4 0 items
    let primary ← Json.Decode.item Json.Decode.text "TypedDataDocument" 4 1 items
    let domain ← Json.Decode.item Domain.ofJson? "TypedDataDocument" 4 2 items
    let message ← Json.Decode.item .ok "TypedDataDocument" 4 3 items
    Json.Decode.noMore 4 items
    return ⟨types, primary, domain, message⟩
  | other => .error (.invalidType other (.record "TypedDataDocument"))

/-- The document that a JSON value writes; its domain is judged first. -/
def load? (j : Json) : Except Error Document :=
  match j.member? "domain" with
  | none => .error (.schema .domainMissing)
  | some domain =>
    match Domain.ofJson? domain with
    | .error cause => .error (.schema (.malformedDomain cause))
    | .ok _ => (ofJson? j).mapError fun cause => .document (.undecodable cause)

/-- The document that a text writes. -/
def ofText? (text : String) : Except Error Document :=
  match Json.read? text with
  | none => .error (.document .notJson)
  | some j => load? j

/-- The schema and the value of the message; the message is judged first. -/
def toParts? (d : Document) : Except Error (Schema × TypedValue) := do
  let message ← (TypedValue.ofJson? d.message).mapError .schema
  let schema ← (Schema.ofTypes? d.types d.primary d.domain).mapError .schema
  return (schema, message)

/-- The hash that an account signs for the message. -/
def messageHash? (d : Document) (account : Felt) : Except Error Felt := do
  let (schema, message) ← d.toParts?
  schema.messageHash? account message

end Document
end StarkSigning

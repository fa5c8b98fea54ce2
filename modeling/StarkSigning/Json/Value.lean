import StarkSigning.Json.Number
import StarkSigning.Table
import StarkSigning.Text.Quoted

/-!
# StarkSigning.Json.Value

JSON values, and their compact text. The reader yields objects whose keys are distinct and sorted;
nothing here depends on it.
-/

namespace StarkSigning

inductive Json where
  | null
  | bool (b : Bool)
  | number (n : Json.Number)
  | string (s : String)
  | array (items : List Json)
  | object (members : List (String × Json))
deriving Inhabited

namespace Json

/-- The member of an object; other values have none. -/
def member? (key : String) : Json → Option Json
  | object members => Table.find? key members
  | _ => none

/-- The short name of a value that a message quotes when it stands in the wrong place. -/
def describe : Json → String
  | null => "null"
  | bool b => "boolean `" ++ (if b then "true" else "false") ++ "`"
  | number (.real x) => "floating point `" ++ Number.text (.real x) ++ "`"
  | number n => "integer `" ++ n.text ++ "`"
  | string s => "string " ++ Text.quoted s
  | array _ => "sequence"
  | object _ => "map"

/-- A character inside a JSON string. -/
def escape (c : Char) : List Char :=
  if c = '\\' ∨ c = Text.doubleMark then ['\\', c]
  else if c.toNat < 0x20 then
    ['\\', 'u', '0', '0', (c.toNat / 16).digitChar, (c.toNat % 16).digitChar]
  else [c]

def renderText (s : String) : List Char :=
  Text.doubleMark :: s.toList.flatMap escape ++ [Text.doubleMark]

mutual

def renderChars : Json → List Char
  | null => "null".toList
  | bool b => (if b then "true" else "false").toList
  | number n => n.text.toList
  | string s => renderText s
  | array items => '[' :: renderItems items ++ [']']
  | object members => '\x7b' :: renderMembers members ++ ['\x7d']

def renderItems : List Json → List Char
  | [] => []
  | [item] => renderChars item
  | item :: rest => renderChars item ++ ',' :: renderItems rest

def renderMembers : List (String × Json) → List Char
  | [] => []
  | [(key, value)] => renderText key ++ ':' :: renderChars value
  | (key, value) :: rest =>
    renderText key ++ ':' :: renderChars value ++ ',' :: renderMembers rest

end

/-- The compact text of a value. -/
def render (j : Json) : String :=
  String.ofList (renderChars j)

end Json
end StarkSigning

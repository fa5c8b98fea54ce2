import StarkSigning.Json.Token

/-!
# StarkSigning.Json.Reader

Reading JSON texts: one value, nothing behind it, and at most 127 arrays and objects inside each
other. The containers still open are a list of frames, innermost first, so that each token is one
step. Of several members with one key the last stays.
-/

namespace StarkSigning
namespace Json

/-- The deepest nesting of arrays and objects. -/
def maxDepth : Nat := 127

/-- An open container: items in reverse, or members with the key whose value is under way. -/
inductive Frame where
  | array (reversed : List Json)
  | object (members : List (String × Json)) (key : String)

/-- What may come next. -/
inductive Progress where
  | value (frames : List Frame)
  /-- Just behind the opening bracket of an array. -/
  | firstItem (frames : List Frame)
  /-- Just behind the opening brace of an object. -/
  | firstKey (frames : List Frame)
  | nextKey (members : List (String × Json)) (frames : List Frame)
  | colon (members : List (String × Json)) (key : String) (frames : List Frame)
  | afterItem (reversed : List Json) (frames : List Frame)
  | afterMember (members : List (String × Json)) (frames : List Frame)
  | done (j : Json)

namespace Progress

/-- Hands a finished value to the innermost open container. -/
def deliver (j : Json) : List Frame → Progress
  | [] => done j
  | .array reversed :: frames => afterItem (j :: reversed) frames
  | .object members key :: frames => afterMember (Table.insert key j members) frames

/-- Reads the first token of a value inside the open containers. -/
def open? (frames : List Frame) : Token → Option Progress
  | .scalar j => some (deliver j frames)
  | .beginArray => if frames.length < maxDepth then some (firstItem frames) else none
  | .beginObject => if frames.length < maxDepth then some (firstKey frames) else none
  | _ => none

def step : Progress → Token → Option Progress
  | value frames, token => open? frames token
  | firstItem frames, .endArray => some (deliver (.array []) frames)
  | firstItem frames, token => open? (.array [] :: frames) token
  | firstKey frames, .endObject => some (deliver (.object []) frames)
  | firstKey frames, .scalar (.string key) => some (colon [] key frames)
  | nextKey members frames, .scalar (.string key) => some (colon members key frames)
  | colon members key frames, .colon => some (value (.object members key :: frames))
  | afterItem reversed frames, .comma => some (value (.array reversed :: frames))
  | afterItem reversed frames, .endArray => some (deliver (.array reversed.reverse) frames)
  | afterMember members frames, .comma => some (nextKey members frames)
  | afterMember members frames, .endObject => some (deliver (.object members) frames)
  | _, _ => none

end Progress

/-- The value of a JSON text. -/
def read? (text : String) : Option Json :=
  match Token.scan? text.toList with
  | none => none
  | some tokens =>
    match tokens.foldlM Progress.step (.value []) with
    | some (.done j) => some j
    | _ => none

end Json
end StarkSigning

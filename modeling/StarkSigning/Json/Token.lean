import StarkSigning.Json.Value

/-!
# StarkSigning.Json.Token

The tokens of a JSON text. The text is read one character at a time: `step` takes the tokens so
far and the place in the current one. Outside strings only the four blanks of the format stand
between tokens. A string may escape any character; two escapes that form a surrogate pair are one
character, and a surrogate without its partner is refused, as are control characters.
-/

namespace StarkSigning
namespace Json

inductive Token where
  | beginArray
  | endArray
  | beginObject
  | endObject
  | comma
  | colon
  | scalar (value : Json)

/-- Where the reading stands; characters of a token under way are in reverse. -/
inductive Place where
  | between
  | word (reversed : List Char)
  | text (reversed : List Char)
  | escape (reversed : List Char)
  /-- After `digits` hexadecimal digits of an escape, which write `value`; `high` is the first
  half of a surrogate pair read before. -/
  | unit (reversed : List Char) (high : Option Nat) (digits value : Nat)
  /-- A first half was read; the escape of the second must follow. -/
  | second (reversed : List Char) (high : Nat)
  | secondEscape (reversed : List Char) (high : Nat)

namespace Token

def isBlank (c : Char) : Bool :=
  c = ' ' || c = '\t' || c = '\n' || c = '\r'

/-- The characters of numbers and of the three names. -/
def isWordChar (c : Char) : Bool :=
  c.isAlphanum || c = '-' || c = '+' || c = '.'

/-- The value of a bare word. -/
def ofWord? (word : List Char) : Option Token :=
  match String.ofList word with
  | "null" => some (scalar .null)
  | "true" => some (scalar (.bool true))
  | "false" => some (scalar (.bool false))
  | _ => (Number.read? word).map fun n => scalar (.number n)

def punctuation? : Char → Option Token
  | '[' => some beginArray
  | ']' => some endArray
  | '\x7b' => some beginObject
  | '\x7d' => some endObject
  | ',' => some comma
  | ':' => some colon
  | _ => none

/-- Reads a character outside tokens. -/
def start (tokens : List Token) (c : Char) : Option (List Token × Place) :=
  if isBlank c then some (tokens, .between)
  else if c = Text.doubleMark then some (tokens, .text [])
  else if isWordChar c then some (tokens, .word [c])
  else (punctuation? c).map fun token => (token :: tokens, .between)

/-- The character that a letter behind a backslash stands for. -/
def escaped? : Char → Option Char
  | '\\' => some '\\'
  | '/' => some '/'
  | 'b' => some '\x08'
  | 'f' => some '\x0c'
  | 'n' => some '\n'
  | 'r' => some '\r'
  | 't' => some '\t'
  | c => if c = Text.doubleMark then some c else none

/-- The place after the four digits of an escape: a character, or a half of one. -/
def endUnit (reversed : List Char) (high : Option Nat) (value : Nat) : Option Place :=
  let isHigh := 0xd800 ≤ value ∧ value < 0xdc00
  let isLow := 0xdc00 ≤ value ∧ value < 0xe000
  match high with
  | some h =>
    if isLow then
      some (.text (Char.ofNat (0x10000 + (h - 0xd800) * 0x400 + (value - 0xdc00)) :: reversed))
    else none
  | none =>
    if isHigh then some (.second reversed value)
    else if isLow then none
    else some (.text (Char.ofNat value :: reversed))

def step : List Token × Place → Char → Option (List Token × Place)
  | (tokens, .between), c => start tokens c
  | (tokens, .word reversed), c =>
    if isWordChar c then some (tokens, .word (c :: reversed))
    else
      match ofWord? reversed.reverse with
      | some token => start (token :: tokens) c
      | none => none
  | (tokens, .text reversed), c =>
    if c = Text.doubleMark then
      some (scalar (.string (String.ofList reversed.reverse)) :: tokens, .between)
    else if c = '\\' then some (tokens, .escape reversed)
    else if c.toNat < 0x20 then none
    else some (tokens, .text (c :: reversed))
  | (tokens, .escape reversed), c =>
    if c = 'u' then some (tokens, .unit reversed none 0 0)
    else (escaped? c).map fun e => (tokens, .text (e :: reversed))
  | (tokens, .unit reversed high digits value), c =>
    match Text.hexDigit? c with
    | none => none
    | some d =>
      if digits = 3 then (endUnit reversed high (16 * value + d)).map fun place => (tokens, place)
      else some (tokens, .unit reversed high (digits + 1) (16 * value + d))
  | (tokens, .second reversed high), c =>
    if c = '\\' then some (tokens, .secondEscape reversed high) else none
  | (tokens, .secondEscape reversed high), c =>
    if c = 'u' then some (tokens, .unit reversed (some high) 0 0) else none

/-- The end of a text may end a word and nothing else. -/
def finish : List Token × Place → Option (List Token)
  | (tokens, .between) => some tokens.reverse
  | (tokens, .word reversed) =>
    (ofWord? reversed.reverse).map fun token => (token :: tokens).reverse
  | _ => none

/-- The tokens of a text. -/
def scan? (text : List Char) : Option (List Token) :=
  (text.foldlM step ([], .between)).bind finish

end Token
end Json
end StarkSigning

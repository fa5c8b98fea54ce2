import StarkSigning.Text.Numeral
import StarkSigning.Text.Printable

/-!
# StarkSigning.Text.Quoted

Texts and single characters in quotation marks, as error messages show the input they refuse.
The mark itself and the backslash are written behind a backslash, four control characters have
letters, and any other character that does not show as itself is written as its code point in
hexadecimal between braces.
-/

namespace StarkSigning
namespace Text

/-- A character between quotation marks of the kind `mark`. -/
def escape (mark c : Char) : List Char :=
  if c = '\x00' then ['\\', '0']
  else if c = '\t' then ['\\', 't']
  else if c = '\n' then ['\\', 'n']
  else if c = '\r' then ['\\', 'r']
  else if c = '\\' ∨ c = mark then ['\\', c]
  else if isPrintable c then [c]
  else ['\\', 'u', '\x7b'] ++ Nat.toDigits 16 c.toNat ++ ['\x7d']

def doubleMark : Char := '\x22'

def singleMark : Char := '\x27'

def quoted (s : String) : String :=
  String.ofList (doubleMark :: s.toList.flatMap (escape doubleMark) ++ [doubleMark])

def quotedChar (c : Char) : String :=
  String.ofList (singleMark :: escape singleMark c ++ [singleMark])

end Text
end StarkSigning

/-!
# StarkSigning.Text.Numeral

Numbers as digit texts: lowercase hexadecimal out, hexadecimal of either case in, and decimal both
ways. Only ASCII digits are digits here. The marker of a hexadecimal text is `0x` or `0X`.

* `hexDigit?_digitChar`: a written hexadecimal digit is read as itself.
* `hexValue_toDigits`: reading a written hexadecimal numeral gives the number back.
* `decimalValue_toDigits`: the same for decimal numerals.
-/

namespace StarkSigning
namespace Text

def hexDigit? (c : Char) : Option Nat :=
  if '0'.toNat ≤ c.toNat ∧ c.toNat ≤ '9'.toNat then some (c.toNat - '0'.toNat)
  else if 'a'.toNat ≤ c.toNat ∧ c.toNat ≤ 'f'.toNat then some (c.toNat - 'a'.toNat + 10)
  else if 'A'.toNat ≤ c.toNat ∧ c.toNat ≤ 'F'.toNat then some (c.toNat - 'A'.toNat + 10)
  else none

def isHexDigit (c : Char) : Bool :=
  (hexDigit? c).isSome

/-- Whether the text starts with a marker. -/
def hasHexMarker : List Char → Bool
  | '0' :: 'x' :: _ => true
  | '0' :: 'X' :: _ => true
  | _ => false

/-- The text without its one marker, if it has one. -/
def dropHexMarker (text : List Char) : List Char :=
  if hasHexMarker text then text.drop 2 else text

/-- Whether the text is one decimal digit or more, and nothing else. -/
def isDecimal (text : List Char) : Bool :=
  !text.isEmpty && text.all Char.isDigit

/-- The number that the digits write, most significant first. -/
def hexValue (digits : List Char) : Nat :=
  digits.foldl (fun value c => 16 * value + (hexDigit? c).getD 0) 0

/-- The number that the decimal digits write, most significant first. -/
def decimalValue (digits : List Char) : Nat :=
  Nat.ofDigitChars 10 digits 0

/-- Lowercase, without marker or leading zeros; zero is one digit. -/
def hexDigits (n : Nat) : String :=
  String.ofList (Nat.toDigits 16 n)

/-- Lowercase hexadecimal behind the marker `0x`. -/
def hex (n : Nat) : String :=
  "0x" ++ hexDigits n

theorem hexDigit?_digitChar {d : Nat} (h : d < 16) : hexDigit? d.digitChar = some d := by
  have all : ∀ d ∈ List.range 16, hexDigit? d.digitChar = some d := by decide
  exact all d (List.mem_range.mpr h)

theorem hexValue_append_singleton (digits : List Char) (c : Char) :
    hexValue (digits ++ [c]) = 16 * hexValue digits + (hexDigit? c).getD 0 := by
  simp [hexValue]

theorem hexValue_toDigits (n : Nat) : hexValue (Nat.toDigits 16 n) = n := by
  induction n using Nat.strongRecOn with
  | ind n ih =>
    rw [Nat.toDigits_eq_if (by decide)]
    split
    · rename_i small
      simp [hexValue, hexDigit?_digitChar small]
    · rw [hexValue_append_singleton, ih (n / 16) (by omega),
        hexDigit?_digitChar (Nat.mod_lt n (by decide))]
      simp only [Option.getD_some]
      omega

theorem decimalValue_toDigits (n : Nat) : decimalValue (Nat.toDigits 10 n) = n :=
  Nat.ofDigitChars_ten_toDigits

end Text
end StarkSigning

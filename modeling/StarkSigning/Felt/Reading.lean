import StarkSigning.Word
import StarkSigning.Text.Utf8
import StarkSigning.Text.Wording

/-!
# StarkSigning.Felt.Reading

Field elements from text and bytes. A hexadecimal text may carry one marker `0x` or `0X` and any
number of leading zeros; a decimal text is ASCII digits only; a short string is at most 31 bytes
of UTF-8, read as one big-endian number. Every refusal names its cause, a `FeltError`.

Of two faults in one hexadecimal text the missing digits win, then too many digits, then the first
character that is no digit, then the size of the number.

* `ofNat?_val`: the representative of an element gives the element.
* `ofBytes_toBytes`: so does its 32-byte form.
-/

namespace StarkSigning

/-- Why a number, a text or a byte string is not a field element. -/
inductive FeltError where
  | outOfRange (value : Nat)
  | tooManyBytes (count : Nat)
  | noHexDigits (input : String)
  | tooManyHexDigits (input : String)
  /-- `position` counts bytes in the significant digits, `byte` is read as one character. -/
  | invalidHexDigit (input : String) (byte : Char) (position : Nat)
  | notDecimal (input : String)
  | decimalTooLarge (input : String)
deriving DecidableEq

namespace FeltError

def message : FeltError → String
  | outOfRange value => Text.outOfRange "field element" value
  | tooManyBytes count => Text.outOfRange "short string length" count
  | noHexDigits input => Text.invalidEncoding input "no hex digits"
  | tooManyHexDigits input => Text.invalidEncoding input "more than 256 bits"
  | invalidHexDigit input byte position =>
    Text.invalidEncoding input
      ("Invalid character " ++ Text.quotedChar byte ++ " at position " ++ Nat.repr position)
  | notDecimal input => Text.invalidEncoding input "not a decimal number"
  | decimalTooLarge input =>
    Text.invalidEncoding input "the value is too large to fit the target type"

end FeltError

namespace Felt

/-- The element with this representative; a number not below the prime is refused. -/
def ofNat? (n : Nat) : Except FeltError Felt :=
  if h : n < fieldPrime then .ok ⟨n, h⟩ else .error (.outOfRange n)

/-- The element that a big-endian byte string writes. -/
def ofBytes? (bytes : List UInt8) : Except FeltError Felt :=
  ofNat? (Bytes.number bytes)

/-- Reads hexadecimal digits of either case, with or without a marker. -/
def ofHex? (input : String) : Except FeltError Felt :=
  let digits := Text.dropHexMarker input.toList
  let significant := digits.dropWhile (· == '0')
  if digits.isEmpty then .error (.noHexDigits input)
  else if 64 < Text.byteLength significant then .error (.tooManyHexDigits input)
  else
    match significant.dropWhile Text.isHexDigit with
    | [] => ofNat? (Text.hexValue significant)
    | c :: _ =>
      -- Digits are taken in pairs, so an odd number of bytes has a zero in front.
      .error (.invalidHexDigit input (Text.leadByte c)
        (Text.byteLength significant % 2 + (significant.takeWhile Text.isHexDigit).length))

/-- Reads ASCII decimal digits; a number of more than 256 bits is told apart from one that is
only too large for the field. -/
def ofDecimal? (input : String) : Except FeltError Felt :=
  if Text.isDecimal input.toList then
    let value := Text.decimalValue input.toList
    if Word.size ≤ value then .error (.decimalTooLarge input) else ofNat? value
  else .error (.notDecimal input)

/-- Hexadecimal behind a marker, else decimal. -/
def ofString? (input : String) : Except FeltError Felt :=
  if Text.hasHexMarker input.toList then ofHex? input else ofDecimal? input

/-- The most bytes whose number is below the prime whatever they are. -/
def maxShortStringLength : Nat := 31

/-- Reads the UTF-8 bytes of a short string as one big-endian number. -/
def ofShortString? (input : String) : Except FeltError Felt :=
  let bytes := Bytes.ofText input
  if h : bytes.length ≤ maxShortStringLength then
    .ok ⟨Bytes.number bytes, by
      have bound := Bytes.number_lt bytes
      have wide : 256 ^ bytes.length ≤ 256 ^ 31 := Nat.pow_le_pow_right (by decide) h
      exact Nat.lt_trans (Nat.lt_of_lt_of_le bound wide) (by decide)⟩
  else .error (.tooManyBytes bytes.length)

theorem ofNat?_val (e : Felt) : ofNat? e.val = .ok e := by
  rw [ofNat?, dif_pos e.val_lt]

theorem ofBytes_toBytes (e : Felt) : ofBytes? e.toBytes = .ok e := by
  rw [ofBytes?, number_toBytes, ofNat?_val]

end Felt
end StarkSigning

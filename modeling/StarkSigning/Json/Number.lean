import StarkSigning.Decimal.Shortest

/-!
# StarkSigning.Json.Number

Numbers of JSON texts. An integer literal of 64 bits, unsigned or below zero, is kept exactly; any
other literal is a double, a negative zero included.

A literal with more digits than 64 bits hold keeps the digits that fit: later digits before the
point raise the exponent, later digits after it are dropped. The kept digits become a double,
which is then multiplied or divided by a power of ten. A literal too large for a double is
refused.
-/

namespace StarkSigning
namespace Json

inductive Number where
  | natural (n : UInt64)
  /-- An integer below zero. -/
  | negative (n : Int64)
  | real (x : Float)
deriving Inhabited

namespace Number

/-- How doubles are written: from `0.00001` up to below `10 ^ 16` positionally, else with a signed
exponent. -/
def realLayout : Decimal.Layout := ⟨-5, 15⟩

def text : Number → String
  | natural n => Nat.repr n.toNat
  | negative n => "-" ++ Nat.repr n.toInt.natAbs
  | real x => realLayout.renderDouble x

/-- The parts of a literal: whole digits, digits after the point, and a signed exponent. -/
structure Literal where
  negative : Bool
  whole : List Char
  fraction : Option (List Char)
  exponent : Option Int

/-- No digit but a zero may stand behind a leading zero. -/
def isWhole (digits : List Char) : Bool :=
  digits = ['0'] || (!digits.isEmpty && digits.head? != some '0')

/-- The exponent behind its letter: an optional sign and at least one digit. -/
def exponent? (text : List Char) : Option Int :=
  let digits := match text with
    | '+' :: rest => rest
    | '-' :: rest => rest
    | rest => rest
  if digits.isEmpty || !digits.all Char.isDigit then none
  else
    let size : Int := Nat.ofDigitChars 10 digits 0
    some (if text.head? = some '-' then -size else size)

/-- Splits a literal by the grammar of JSON. -/
def literal? (text : List Char) : Option Literal :=
  let negative := text.head? = some '-'
  let unsigned := if negative then text.drop 1 else text
  let whole := unsigned.takeWhile Char.isDigit
  let behind := unsigned.dropWhile Char.isDigit
  if !isWhole whole then none
  else
    match behind with
    | '.' :: rest =>
      let fraction := rest.takeWhile Char.isDigit
      if fraction.isEmpty then none
      else
        match rest.dropWhile Char.isDigit with
        | [] => some ⟨negative, whole, some fraction, none⟩
        | c :: power =>
          if c = 'e' ∨ c = 'E' then
            (exponent? power).map fun e => ⟨negative, whole, some fraction, some e⟩
          else none
    | [] => some ⟨negative, whole, none, none⟩
    | c :: power =>
      if c = 'e' ∨ c = 'E' then
        (exponent? power).map fun e => ⟨negative, whole, none, some e⟩
      else none

def digitValue (c : Char) : Nat :=
  c.toNat - '0'.toNat

/-- Digits read so far, and the power of ten that scales them. -/
structure Scaled where
  significand : Nat
  exponent : Int

/-- Keeps whole digits while they fit 64 bits; each later one raises the exponent. -/
def ofWhole (digits : List Char) : Scaled :=
  digits.foldl (fun s c =>
    let next := 10 * s.significand + digitValue c
    if 0 < s.exponent ∨ UInt64.size ≤ next then ⟨s.significand, s.exponent + 1⟩
    else ⟨next, 0⟩) ⟨0, 0⟩

/-- Appends fraction digits while they fit 64 bits; the first that does not ends the reading. -/
def addFraction (s : Scaled) : List Char → Scaled
  | [] => s
  | c :: rest =>
    let next := 10 * s.significand + digitValue c
    if UInt64.size ≤ next then s else addFraction ⟨next, s.exponent - 1⟩ rest

/-- The largest exponent whose power of ten is a double. -/
def maxPower : Nat := 308

def powerOfTen (e : Nat) : Float :=
  Float.ofScientific 1 false e

/-- Division by `10 ^ e`, in steps of the largest power. -/
def divide (x : Float) (e : Nat) : Float :=
  if e ≤ maxPower then x / powerOfTen e
  else if x == 0 then x
  else divide (x / powerOfTen maxPower) (e - maxPower)
termination_by e
decreasing_by simp only [maxPower] at *; omega

/-- The double of scaled digits; none where it would be infinite. -/
def Scaled.toDouble? (s : Scaled) : Option Float :=
  let x := (UInt64.ofNat s.significand).toFloat
  if s.exponent < 0 then some (divide x s.exponent.natAbs)
  else if s.significand = 0 then some x
  else if maxPower < s.exponent.natAbs then none
  else
    let y := x * powerOfTen s.exponent.natAbs
    if y.isInf then none else some y

def signed (negative : Bool) (x : Float) : Number :=
  real (if negative then -x else x)

/-- The number that a literal writes. -/
def ofLiteral? (l : Literal) : Option Number :=
  let s := ofWhole l.whole
  if l.fraction.isNone && l.exponent.isNone && s.exponent = 0 then
    if !l.negative then some (natural (UInt64.ofNat s.significand))
    else if 0 < s.significand ∧ s.significand ≤ UInt64.size / 2 then
      some (negative (Int64.ofInt (-(s.significand : Int))))
    else some (signed true (UInt64.ofNat s.significand).toFloat)
  else
    let scaled := addFraction s (l.fraction.getD [])
    (Scaled.toDouble? ⟨scaled.significand, scaled.exponent + l.exponent.getD 0⟩).map
      (signed l.negative)

def read? (text : List Char) : Option Number :=
  (literal? text).bind ofLiteral?

end Number
end Json
end StarkSigning

/-!
# StarkSigning.Decimal.Shortest

The shortest decimal numeral that reads back as a given double, and how it is laid out.

A positive double is `mantissa * 2 ^ exponent`; the reals that round to it form an interval whose
ends belong to it exactly when the mantissa is even. For one, two, up to seventeen digits the two
neighbours of the value on the grid of that many digits are tested in exact arithmetic. The first
grid with a neighbour in the interval wins; of two neighbours the nearer, and of two equally near
the even one.
-/

namespace StarkSigning
namespace Decimal

/-- The positive number `mantissa * 2 ^ exponent`; `narrow` holds when the next smaller double is
only half as far away as the next larger one. -/
structure Binary where
  mantissa : Nat
  exponent : Int
  narrow : Bool

/-- The fraction field of a double has 52 bits. -/
def fractionSize : Nat := 0x10000000000000

/-- The exponent field of a double has 11 bits. -/
def exponentSize : Nat := 0x800

/-- The bits of a double below its sign bit. -/
def magnitudeSize : Nat := exponentSize * fractionSize

/-- The magnitude of a finite double other than zero. -/
def Binary.ofBits (bits : UInt64) : Binary :=
  let fraction := bits.toNat % fractionSize
  let biased := bits.toNat / fractionSize % exponentSize
  if biased = 0 then ⟨fraction, -1074, false⟩
  else ⟨fraction + fractionSize, (biased : Int) - 1075, fraction = 0 ∧ 1 < biased⟩

/-- The number `digits * 10 ^ exponent`. -/
structure Numeral where
  digits : Nat
  exponent : Int

/-- A fraction with the interval of reals that round to it, over one denominator. -/
structure Interval where
  low : Nat
  value : Nat
  high : Nat
  denominator : Nat
  closed : Bool

def Interval.ofBinary (b : Binary) : Interval :=
  let up := Nat.pow 2 b.exponent.toNat
  ⟨(4 * b.mantissa - if b.narrow then 1 else 2) * up, 4 * b.mantissa * up,
    (4 * b.mantissa + 2) * up, 4 * Nat.pow 2 (-b.exponent).toNat, b.mantissa % 2 = 0⟩

/-- Whether `n * 10 ^ exponent` lies in the interval. -/
def Interval.holds (i : Interval) (n : Nat) (exponent : Int) : Bool :=
  let point := n * Nat.pow 10 exponent.toNat * i.denominator
  let down := Nat.pow 10 (-exponent).toNat
  if i.closed then i.low * down ≤ point ∧ point ≤ i.high * down
  else i.low * down < point ∧ point < i.high * down

/-- How many decimal digits a number has; zero has one. -/
def digitCount (n : Nat) : Nat :=
  (Nat.toDigits 10 n).length

/-- The exponent of the leading decimal digit of the value. -/
def Interval.leading (i : Interval) : Int :=
  if i.denominator ≤ i.value then (digitCount (i.value / i.denominator) : Int) - 1
  else -(digitCount ((i.denominator - 1) / i.value) : Int)

/-- The better of the two neighbours of the value on the grid of step `10 ^ exponent`. -/
def Interval.neighbour? (i : Interval) (exponent : Int) : Option Nat :=
  let scaled := i.value * Nat.pow 10 (-exponent).toNat
  let step := i.denominator * Nat.pow 10 exponent.toNat
  let below := scaled / step
  let rest := scaled % step
  match i.holds below exponent, i.holds (below + 1) exponent with
  | true, true =>
    if 2 * rest < step ∨ (2 * rest = step ∧ below % 2 = 0) then some below else some (below + 1)
  | true, false => some below
  | false, true => some (below + 1)
  | false, false => none

/-- Grids from `count` digits up to seventeen. -/
def Interval.search (i : Interval) : Nat → Option Numeral
  | 0 => none
  | left + 1 =>
    let exponent := i.leading - (16 - left : Nat)
    match i.neighbour? exponent with
    | some n => some ⟨n, exponent⟩
    | none => i.search left

/-- Moves the zeros at the end of the digits into the exponent. -/
def Numeral.trim (n : Numeral) : Numeral :=
  let zeros := ((Nat.toDigits 10 n.digits).reverse.takeWhile (· == '0')).length
  ⟨n.digits / Nat.pow 10 zeros, n.exponent + zeros⟩

/-- The shortest numeral of a finite double other than zero, by magnitude. -/
def shortest (bits : UInt64) : Numeral :=
  match (Interval.ofBinary (Binary.ofBits bits)).search 17 with
  | some n => n.trim
  | none => ⟨0, 0⟩

/-- Which exponents of the leading digit are written positionally, both ends included. -/
structure Layout where
  lowestFixed : Int
  highestFixed : Int

def zeros (count : Nat) : List Char :=
  List.replicate count '0'

/-- Positional numerals have at least one digit on each side of the point. The other form has one
digit before the point, and an exponent with a sign and no zeros in front. -/
def Layout.render (layout : Layout) (n : Numeral) : List Char :=
  let digits := Nat.toDigits 10 n.digits
  let leading := n.exponent + (digits.length : Int) - 1
  if layout.lowestFixed ≤ leading ∧ leading ≤ layout.highestFixed then
    if 0 ≤ n.exponent then digits ++ zeros n.exponent.toNat ++ ['.', '0']
    else if 0 ≤ leading then
      digits.take (leading.toNat + 1) ++ ['.'] ++ digits.drop (leading.toNat + 1)
    else ['0', '.'] ++ zeros (-leading - 1).toNat ++ digits
  else
    let fraction := digits.drop 1
    digits.take 1 ++ (if fraction.isEmpty then [] else '.' :: fraction)
      ++ ['e', if 0 ≤ leading then '+' else '-'] ++ Nat.toDigits 10 leading.natAbs

/-- The text of a finite double. -/
def Layout.renderDouble (layout : Layout) (x : Float) : String :=
  let bits := x.toBits
  let sign := if bits.toNat < magnitudeSize then [] else ['-']
  let magnitude := if bits.toNat % magnitudeSize = 0 then ['0', '.', '0']
    else layout.render (shortest bits)
  String.ofList (sign ++ magnitude)

end Decimal
end StarkSigning

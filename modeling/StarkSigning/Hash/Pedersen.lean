import StarkSigning.Curve.Multiple

/-!
# StarkSigning.Hash.Pedersen

The Pedersen hash of at most two field elements. From the shift point on, the 252 digits of each
element, least significant first, are walked along a row of constant points; the point of each set
digit is added, and the hash is the `x` of the sum. A row holds the doublings of one base for the
low 248 digits and those of a second base for the rest. Before every digit the sum and the point
must differ in `x`.

Lists of any length are folded from zero; `hashWithLength?` adds the length at the end, which
separates lists that the fold alone would not.
-/

namespace StarkSigning
namespace Pedersen

/-- The digits taken from each element. -/
def elementBits : Nat := 252

/-- The digits that the first base of a row serves. -/
def lowBitCount : Nat := 248

/-- The most elements that are hashed at once. -/
def maxInputs : Nat := 2

/-- A point and its doublings, `count` points in all. -/
def doublings? (p : Point) : Nat → Except Error (List Point)
  | 0 => .ok []
  | count + 1 =>
    match p.double? with
    | .error e => .error e
    | .ok double =>
      match doublings? double count with
      | .error e => .error e
      | .ok rest => .ok (p :: rest)

/-- The constant points of one element, least significant digit first. -/
def row? (low high : Point) : Except Error (List Point) :=
  match doublings? low lowBitCount with
  | .error e => .error e
  | .ok lows =>
    match doublings? high (elementBits - lowBitCount) with
    | .error e => .error e
    | .ok highs => .ok (lows ++ highs)

/-- The rows of the two elements. -/
def table? : Except Error (List (List Point)) := do
  let first ← row? Curve.pedersenBase0 Curve.pedersenBase1
  let second ← row? Curve.pedersenBase2 Curve.pedersenBase3
  return [first, second]

/-- Walks the digits of one element along its row. -/
def walk? (sum : Point) : List (Bool × Point) → Except Error Point
  | [] => .ok sum
  | (bit, p) :: rest =>
    if sum.x? = p.x? then .error (.point .pedersenCollision)
    else if bit then
      match sum.add? p with
      | .error e => .error e
      | .ok next => walk? next rest
    else walk? sum rest

/-- Walks each element along its own row. -/
def absorb? (sum : Point) : List (Felt × List Point) → Except Error Point
  | [] => .ok sum
  | (e, row) :: rest =>
    match walk? sum ((lowBits e.val elementBits).zip row) with
    | .error e => .error e
    | .ok next => absorb? next rest

/-- The `x` of a finite sum as a field element. -/
def result? : Point → Except Error Felt
  | .infinity => .error (.point .pedersenInfinity)
  | .affine x _ => x.toFelt?

/-- The hash of at most two elements. -/
def hash? (elements : List Felt) : Except Error Felt :=
  if maxInputs < elements.length then
    .error (.outOfRange .pedersenInputCount elements.length)
  else do
    let table ← table?
    let sum ← absorb? Curve.shift (elements.zip table)
    result? sum

/-- The two-to-one hash folded over a list, from a start. -/
def fold? (start : Felt) : List Felt → Except Error Felt
  | [] => .ok start
  | e :: rest => do
    let next ← hash? [start, e]
    fold? next rest

/-- The fold from zero; the empty list counts as the list of one zero. -/
def hashList? : List Felt → Except Error Felt
  | [] => hash? [Felt.zero, Felt.zero]
  | elements => fold? Felt.zero elements

/-- The hash of the elements followed by their number. -/
def hashWithLength? (elements : List Felt) : Except Error Felt :=
  hashList? (elements ++ [Felt.ofLength elements])

end Pedersen
end StarkSigning

import StarkSigning.Curve.Addition

/-!
# StarkSigning.Curve.Multiple

Multiples of a point by the binary digits of the scalar, least significant first. `multiple?` is
the plain method: it starts at infinity and ends at the leading digit. `circuitMultiple?` is the
method that a proof circuit constrains: it starts at a shift point, runs over 251 digits whatever
the scalar, and requires in each round that the sum so far and the current base differ in `x`.
The shift stays in its result.

* `number_lowBits`: the low digits of a number write its remainder.
-/

namespace StarkSigning

/-- The `count` low binary digits of a number, least significant first. -/
def lowBits (n : Nat) : Nat → List Bool
  | 0 => []
  | count + 1 => (n % 2 == 1) :: lowBits (n / 2) count

/-- The number that binary digits write, least significant first. -/
def bitsNumber : List Bool → Nat
  | [] => 0
  | bit :: rest => bit.toNat + 2 * bitsNumber rest

theorem length_lowBits (n count : Nat) : (lowBits n count).length = count := by
  induction count generalizing n with
  | zero => rfl
  | succ count ih => rw [lowBits, List.length_cons, ih]

theorem toNat_lowestBit (n : Nat) : (n % 2 == 1).toNat = n % 2 := by
  rcases Nat.mod_two_eq_zero_or_one n with even | odd
  · rw [even]; rfl
  · rw [odd]; rfl

theorem number_lowBits (n count : Nat) :
    bitsNumber (lowBits n count) = n % Nat.pow 2 count := by
  induction count generalizing n with
  | zero => rw [Nat.pow_eq, Nat.pow_zero, Nat.mod_one]; rfl
  | succ count ih =>
    rw [lowBits, bitsNumber, ih, toNat_lowestBit, Nat.pow_eq, Nat.pow_eq, Nat.pow_succ,
      Nat.mul_comm (2 ^ count), Nat.mod_mul]

namespace Point

/-- Adds to `sum` the base, doubled once more from digit to digit, where the digit is set. -/
def ladder? (sum base : Point) : List Bool → Except Error Point
  | [] => .ok sum
  | bit :: rest =>
    match if bit then sum.add? base else .ok sum with
    | .error e => .error e
    | .ok next =>
      match base.double? with
      | .error e => .error e
      | .ok double => ladder? next double rest

/-- The scalar times the point. -/
def multiple? (scalar : Word) (p : Point) : Except Error Point :=
  ladder? infinity p (lowBits scalar.toNat scalar.bitLength)

/-- Whether both points are finite and differ in `x`, as written. -/
def apart : Point → Point → Bool
  | affine x₁ _, affine x₂ _ => x₁ ≠ x₂
  | _, _ => false

/-- As `ladder?`, and every round starts from points that are apart. -/
def circuitLadder? (sum base : Point) : List Bool → Except Error Point
  | [] => .ok sum
  | bit :: rest =>
    if !sum.apart base then .error (.point .circuitCollision)
    else
      match if bit then sum.add? base else .ok sum with
      | .error e => .error e
      | .ok next =>
        match base.double? with
        | .error e => .error e
        | .ok double => circuitLadder? next double rest

/-- The number of rounds, and the width of scalars, of the circuit. -/
def circuitBits : Nat := 251

/-- The shift plus the scalar times the point, for a scalar that is not zero and has at most 251
bits, and finite points. -/
def circuitMultiple? (scalar : Word) (p shift : Point) : Except Error Point :=
  if scalar = 0 ∨ circuitBits < scalar.bitLength then
    .error (.outOfRange .circuitScalar scalar.toNat)
  else if p.isInfinity || shift.isInfinity then .error (.point .infiniteCircuitInput)
  else circuitLadder? shift p (lowBits scalar.toNat circuitBits)

end Point
end StarkSigning

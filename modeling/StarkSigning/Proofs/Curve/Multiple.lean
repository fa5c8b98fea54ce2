import StarkSigning.Curve.Multiple
import StarkSigning.Proofs.Curve.Group

/-!
# StarkSigning.Proofs.Curve.Multiple

Both methods of multiplication compute multiples in the group. A round adds the base where the
digit is set and doubles it, so that digits which write `n` add `n` times the base to the sum; the
rounds of the circuit do the same as long as the points of each round are apart.

* `multiple?_ofGroup`: the plain method never fails and gives the multiple.
* `circuitLadder?_eq`: a ladder of the circuit, by the sums and bases of its rounds.
* `circuitMultiple?_of_out_of_range`, `circuitMultiple?_eq_circuitLadder?`: scalars refused, and
  the ladder for the others.
* `circuitMultiple?_ofGroup`: the method of the circuit, where it gives a point, gives the shift
  plus the multiple.
-/

namespace StarkSigning

theorem Word.bitLength_le_iff {w : Word} {count : Nat} :
    w.bitLength ≤ count ↔ w.toNat < 2 ^ count := by
  rw [bitLength]
  split
  · rename_i zero
    simp [zero]
  · rename_i ne_zero
    have toNat_ne_zero : w.toNat ≠ 0 := fun zero => ne_zero (BitVec.eq_of_toNat_eq zero)
    rw [← Nat.log2_lt toNat_ne_zero]
    rfl

theorem bitsNumber_bitLength (w : Word) : bitsNumber (lowBits w.toNat w.bitLength) = w.toNat := by
  have fits : w.toNat < 2 ^ w.bitLength := Word.bitLength_le_iff.mp (Nat.le_refl _)
  rw [number_lowBits, Nat.pow_eq, Nat.mod_eq_of_lt fits]

namespace Point

theorem apart_eq_true_iff {p q : Point} :
    p.apart q = true ↔ p.isInfinity = false ∧ q.isInfinity = false ∧ p.x? ≠ q.x? := by
  cases p with
  | infinity => simp [apart, isInfinity]
  | affine x₁ y₁ =>
    cases q with
    | infinity => simp [apart, isInfinity]
    | affine x₂ y₂ => simp [apart, isInfinity, x?]

theorem add_digit_ofGroup (bit : Bool) (sum base : Curve.Group) :
    (if bit then (ofGroup sum).add? (ofGroup base) else .ok (ofGroup sum)) =
      (.ok (ofGroup (sum + bit.toNat • base)) : Except Error Point) := by
  cases bit with
  | false => rw [if_neg Bool.false_ne_true, Bool.toNat_false, zero_nsmul, add_zero]
  | true => rw [if_pos rfl, add?_ofGroup, Bool.toNat_true, one_nsmul]

/-- The digit of a round and those behind it, at twice the base. -/
theorem add_bitsNumber_cons (bit : Bool) (rest : List Bool) (sum base : Curve.Group) :
    sum + bit.toNat • base + bitsNumber rest • (base + base) =
      sum + bitsNumber (bit :: rest) • base := by
  rw [bitsNumber, add_nsmul, Nat.mul_comm, mul_nsmul', two_nsmul, add_assoc]

theorem ladder?_ofGroup (sum base : Curve.Group) (bits : List Bool) :
    ladder? (ofGroup sum) (ofGroup base) bits = .ok (ofGroup (sum + bitsNumber bits • base)) := by
  induction bits generalizing sum base with
  | nil => rw [ladder?, bitsNumber, zero_nsmul, add_zero]
  | cons bit rest ih =>
    rw [ladder?, add_digit_ofGroup, double?_ofGroup]
    simp only [ih, add_bitsNumber_cons]

theorem multiple?_ofGroup (scalar : Word) (g : Curve.Group) :
    multiple? scalar (ofGroup g) = .ok (ofGroup (scalar.toNat • g)) := by
  rw [multiple?, ← ofGroup_zero, ladder?_ofGroup, bitsNumber_bitLength, zero_add]

theorem circuitLadder?_ofGroup_cons (sum base : Curve.Group) (bit : Bool) (rest : List Bool) :
    circuitLadder? (ofGroup sum) (ofGroup base) (bit :: rest) =
      if (ofGroup sum).apart (ofGroup base) then
        circuitLadder? (ofGroup (sum + bit.toNat • base)) (ofGroup (base + base)) rest
      else .error (.point .circuitCollision) := by
  rw [circuitLadder?, add_digit_ofGroup, double?_ofGroup]
  cases (ofGroup sum).apart (ofGroup base) <;> rfl

/-- A ladder gives a point exactly if the sum and the base of every round are apart. -/
theorem circuitLadder?_eq (sum base : Curve.Group) (bits : List Bool) :
    circuitLadder? (ofGroup sum) (ofGroup base) bits =
      if ∀ i < bits.length, (ofGroup (sum + bitsNumber (bits.take i) • base)).apart
          (ofGroup (2 ^ i • base)) = true then
        .ok (ofGroup (sum + bitsNumber bits • base))
      else .error (.point .circuitCollision) := by
  induction bits generalizing sum base with
  | nil => simp [circuitLadder?, bitsNumber]
  | cons bit rest ih =>
    have later : ∀ i, 2 ^ (i + 1) • base = 2 ^ i • (base + base) := by
      intro i
      rw [pow_succ, mul_nsmul', two_nsmul]
    have empty : bitsNumber [] = 0 := rfl
    rw [circuitLadder?_ofGroup_cons, ih, List.length_cons]
    simp only [Nat.forall_lt_succ_left, List.take_zero, List.take_succ_cons, empty, zero_nsmul,
      add_zero, pow_zero, one_nsmul, later, ← add_bitsNumber_cons]
    by_cases first : (ofGroup sum).apart (ofGroup base) = true
    · rw [if_pos first]
      simp only [first, true_and]
    · rw [if_neg first, if_neg fun all => first all.1]

theorem circuitLadder?_ofGroup {sum base : Curve.Group} {bits : List Bool} {p : Point}
    (h : circuitLadder? (ofGroup sum) (ofGroup base) bits = .ok p) :
    p = ofGroup (sum + bitsNumber bits • base) := by
  rw [circuitLadder?_eq] at h
  split at h
  · cases h
    rfl
  · cases h

theorem bitsNumber_circuit {scalar : Word} (short : scalar.toNat < 2 ^ circuitBits) :
    bitsNumber (lowBits scalar.toNat circuitBits) = scalar.toNat := by
  rw [number_lowBits, Nat.pow_eq, Nat.mod_eq_of_lt short]

theorem circuitMultiple?_of_out_of_range {scalar : Word} (p shift : Point)
    (h : scalar = 0 ∨ 2 ^ circuitBits ≤ scalar.toNat) :
    circuitMultiple? scalar p shift = .error (.outOfRange .circuitScalar scalar.toNat) := by
  have refused : scalar = 0 ∨ circuitBits < scalar.bitLength := by
    rw [← Nat.not_le, Word.bitLength_le_iff, Nat.not_lt]
    exact h
  rw [circuitMultiple?, if_pos refused]

theorem circuitMultiple?_eq_circuitLadder? {scalar : Word} {p shift : Point} (pos : scalar ≠ 0)
    (short : scalar.toNat < 2 ^ circuitBits) (p_finite : p.isInfinity = false)
    (shift_finite : shift.isInfinity = false) :
    circuitMultiple? scalar p shift =
      circuitLadder? shift p (lowBits scalar.toNat circuitBits) := by
  have accepted : ¬(scalar = 0 ∨ circuitBits < scalar.bitLength) := by
    rw [not_or, Nat.not_lt, Word.bitLength_le_iff]
    exact ⟨pos, short⟩
  rw [circuitMultiple?, if_neg accepted, p_finite, shift_finite, Bool.or_false,
    if_neg Bool.false_ne_true]

theorem circuitMultiple?_ofGroup {scalar : Word} {g shift : Curve.Group} {p : Point}
    (h : circuitMultiple? scalar (ofGroup g) (ofGroup shift) = .ok p) :
    p = ofGroup (shift + scalar.toNat • g) := by
  simp only [circuitMultiple?] at h
  split at h
  · cases h
  · rename_i inRange
    split at h
    · cases h
    · rw [not_or, Nat.not_lt, Word.bitLength_le_iff] at inRange
      rw [circuitLadder?_ofGroup h, bitsNumber_circuit inRange.2]

end Point
end StarkSigning

import StarkSigning.Proofs.Curve.Generator
import StarkSigning.Proofs.Curve.Laws
import StarkSigning.Proofs.Outcome

/-!
# StarkSigning.Proofs.Curve.Circuit

The multiplication of the circuit against the plain one. Round `i` starts from the shift plus the
multiple by the digits below `i`, and from the point doubled `i` times, both of which the plain
method computes from scratch; the circuit gives a point exactly if the two differ in `x` in every
round, and then the point that the plain method gives, plus the shift.

A sum that has left a round is finite: the round added two points with different `x`, which are not
opposite. So only the base of a round is asked to be finite.

* `circuitLadder?_lowBits`: a ladder of the circuit, by the sums and bases of its rounds.
* `sum_ne_zero_of_apart`: rounds that pass leave finite sums.
* `circuitMultiple?_outcome`: the rounds decide the outcome.
* `circuitMultiple?_matches_plain`: the three outcomes of the circuit.
-/

namespace StarkSigning

theorem take_lowBits {n i count : Nat} (h : i ≤ count) :
    (lowBits n count).take i = lowBits n i := by
  induction count generalizing n i with
  | zero =>
    rw [Nat.le_zero.mp h]
    rfl
  | succ count ih =>
    cases i with
    | zero => rfl
    | succ i => rw [lowBits, List.take_succ_cons, ih (Nat.le_of_succ_le_succ h), lowBits]

namespace Point

/-- A finite sum that differs in `x` from a base stays finite, whether the base is added or not:
they are not opposite. -/
theorem add_digit_ne_zero {sum base : Curve.Group} (start : sum ≠ 0)
    (x_ne : (ofGroup sum).x? ≠ (ofGroup base).x?) (bit : Bool) : sum + bit.toNat • base ≠ 0 := by
  cases bit with
  | false =>
    rw [Bool.toNat_false, zero_nsmul, add_zero]
    exact start
  | true =>
    rw [Bool.toNat_true, one_nsmul]
    intro opposite
    rw [eq_neg_of_add_eq_zero_left opposite, ← neg_ofGroup, x?_neg] at x_ne
    exact x_ne rfl

theorem add_digit_ne_zero_of_apart {sum base : Curve.Group}
    (h : (ofGroup sum).apart (ofGroup base) = true) (bit : Bool) :
    sum + bit.toNat • base ≠ 0 := by
  obtain ⟨finite, -, x_ne⟩ := apart_eq_true_iff.mp h
  exact add_digit_ne_zero (isInfinity_ofGroup_eq_false_iff.mp finite) x_ne bit

/-! ## Rounds in the group -/

theorem circuitLadder?_lowBits (n count : Nat) (g b : Curve.Group) :
    circuitLadder? (ofGroup g) (ofGroup b) (lowBits n count) =
      if ∀ i < count, (ofGroup (g + (n % 2 ^ i) • b)).apart (ofGroup (2 ^ i • b)) = true then
        .ok (ofGroup (g + (n % 2 ^ count) • b))
      else .error (.point .circuitCollision) := by
  have sums : ∀ i < count, bitsNumber ((lowBits n count).take i) = n % 2 ^ i := by
    intro i lt
    rw [take_lowBits (Nat.le_of_lt lt), number_lowBits, Nat.pow_eq]
  have rounds : (∀ i < count, (ofGroup (g + bitsNumber ((lowBits n count).take i) • b)).apart
      (ofGroup (2 ^ i • b)) = true) ↔
      ∀ i < count, (ofGroup (g + (n % 2 ^ i) • b)).apart (ofGroup (2 ^ i • b)) = true :=
    forall₂_congr fun i lt => by rw [sums i lt]
  rw [circuitLadder?_eq, length_lowBits, number_lowBits, Nat.pow_eq]
  simp only [rounds]

theorem sum_ne_zero_of_apart {n i : Nat} {g b : Curve.Group} (start : g ≠ 0)
    (passed : ∀ j < i, (ofGroup (g + (n % 2 ^ j) • b)).apart (ofGroup (2 ^ j • b)) = true) :
    g + (n % 2 ^ i) • b ≠ 0 := by
  cases i with
  | zero =>
    rw [pow_zero, Nat.mod_one, zero_nsmul, add_zero]
    exact start
  | succ i =>
    have left := add_digit_ne_zero_of_apart (passed i (Nat.lt_succ_self i)) (n / 2 ^ i % 2 == 1)
    rwa [toNat_lowestBit, add_assoc, ← mul_nsmul, ← add_nsmul, ← Nat.mod_pow_succ] at left

/-- All rounds pass as soon as every base is finite and differs from the sum in `x`. -/
theorem forall_apart_iff {n count : Nat} {g b : Curve.Group} (start : g ≠ 0) :
    (∀ i < count, (ofGroup (g + (n % 2 ^ i) • b)).apart (ofGroup (2 ^ i • b)) = true) ↔
      ∀ i < count, (ofGroup (2 ^ i • b)).isInfinity = false ∧
        (ofGroup (g + (n % 2 ^ i) • b)).x? ≠ (ofGroup (2 ^ i • b)).x? := by
  constructor
  · intro passed i lt
    exact (apart_eq_true_iff.mp (passed i lt)).2
  · intro passes i
    induction i using Nat.strong_induction_on with
    | h i ih =>
      intro lt
      -- The sum of this round is finite because all rounds before it have passed.
      have finite : g + (n % 2 ^ i) • b ≠ 0 :=
        sum_ne_zero_of_apart start fun j earlier => ih j earlier (Nat.lt_trans earlier lt)
      exact apart_eq_true_iff.mpr ⟨isInfinity_ofGroup_eq_false_iff.mpr finite, passes i lt⟩

/-- A ladder that was cut off holds the sum of the next round, a finite one. -/
theorem circuitLadder?_lowBits_eq_ok {n count : Nat} {g b : Curve.Group} {sum : Point}
    (start : g ≠ 0)
    (run : circuitLadder? (ofGroup g) (ofGroup b) (lowBits n count) = .ok sum) :
    sum = ofGroup (g + (n % 2 ^ count) • b) ∧ sum.isInfinity = false := by
  rw [circuitLadder?_lowBits] at run
  split at run
  · rename_i passed
    cases run
    exact ⟨rfl, isInfinity_ofGroup_eq_false_iff.mpr (sum_ne_zero_of_apart start passed)⟩
  · cases run

/-! ## Rounds by plain multiplication -/

/-- The sum before a round: the shift and the multiple by the digits below the round. -/
def roundSum? (scalar : Word) (p shift : Point) (i : Nat) : Except Error Point := do
  let product ← multiple? (Word.ofNat (scalar.toNat % 2 ^ i)) p
  shift.add? product

/-- The base of a round: the multiple by the digit of the round alone. -/
def roundBase? (p : Point) (i : Nat) : Except Error Point :=
  multiple? (Word.ofNat (2 ^ i)) p

/-- The base of the round is finite and differs from the sum in `x`. -/
def RoundPasses (scalar : Word) (p shift : Point) (i : Nat) : Prop :=
  ∃ sum base, roundSum? scalar p shift i = .ok sum ∧ roundBase? p i = .ok base ∧
    base.isInfinity = false ∧ sum.x? ≠ base.x?

theorem roundSum?_ofGroup (scalar : Word) (b g : Curve.Group) (i : Nat) :
    roundSum? scalar (ofGroup b) (ofGroup g) i =
      .ok (ofGroup (g + (scalar.toNat % 2 ^ i) • b)) := by
  have small : scalar.toNat % 2 ^ i < Word.size :=
    Nat.lt_of_le_of_lt (Nat.mod_le _ _) scalar.toNat_lt_size
  rw [roundSum?, multiple?_ofGroup, Word.toNat_ofNat small, Outcome.ok_bind, add?_ofGroup]

theorem roundBase?_ofGroup (b : Curve.Group) {i : Nat} (h : i < circuitBits) :
    roundBase? (ofGroup b) i = .ok (ofGroup (2 ^ i • b)) := by
  have small : 2 ^ i < Word.size :=
    Nat.lt_of_lt_of_le (Nat.pow_lt_pow_right (by decide) h) (by decide)
  rw [roundBase?, multiple?_ofGroup, Word.toNat_ofNat small]

theorem roundPasses_ofGroup_iff {scalar : Word} {b g : Curve.Group} {i : Nat}
    (h : i < circuitBits) :
    RoundPasses scalar (ofGroup b) (ofGroup g) i ↔ (ofGroup (2 ^ i • b)).isInfinity = false ∧
      (ofGroup (g + (scalar.toNat % 2 ^ i) • b)).x? ≠ (ofGroup (2 ^ i • b)).x? := by
  rw [RoundPasses, roundSum?_ofGroup, roundBase?_ofGroup b h]
  constructor
  · rintro ⟨_, _, ⟨⟩, ⟨⟩, passes⟩
    exact passes
  · intro passes
    exact ⟨_, _, rfl, rfl, passes⟩

theorem forall_roundPasses_iff {scalar : Word} {b g : Curve.Group} (start : g ≠ 0) :
    (∀ i < circuitBits, RoundPasses scalar (ofGroup b) (ofGroup g) i) ↔
      ∀ i < circuitBits, (ofGroup (g + (scalar.toNat % 2 ^ i) • b)).apart
        (ofGroup (2 ^ i • b)) = true := by
  rw [forall_apart_iff start]
  exact forall₂_congr fun i lt => roundPasses_ofGroup_iff lt

/-- In range, the rounds decide between a finite sum and a collision. -/
theorem circuitMultiple?_outcome {scalar : Word} {b g : Curve.Group} (pos : scalar ≠ 0)
    (short : scalar.toNat < 2 ^ circuitBits) (base_ne : b ≠ 0) (start : g ≠ 0) :
    ((∀ i < circuitBits, RoundPasses scalar (ofGroup b) (ofGroup g) i) ∧
      circuitMultiple? scalar (ofGroup b) (ofGroup g) = .ok (ofGroup (g + scalar.toNat • b)) ∧
      g + scalar.toNat • b ≠ 0) ∨
    ((¬ ∀ i < circuitBits, RoundPasses scalar (ofGroup b) (ofGroup g) i) ∧
      circuitMultiple? scalar (ofGroup b) (ofGroup g) = .error (.point .circuitCollision)) := by
  have all : scalar.toNat % 2 ^ circuitBits = scalar.toNat := Nat.mod_eq_of_lt short
  rw [forall_roundPasses_iff start, circuitMultiple?_eq_circuitLadder? pos short
    (isInfinity_ofGroup_eq_false_iff.mpr base_ne) (isInfinity_ofGroup_eq_false_iff.mpr start),
    circuitLadder?_lowBits, all]
  split
  · rename_i passed
    have finite := sum_ne_zero_of_apart start passed
    rw [all] at finite
    exact Or.inl ⟨passed, rfl, finite⟩
  · rename_i collides
    exact Or.inr ⟨collides, rfl⟩

/-- For finite points of the curve: a scalar that is zero or has more than 251 digits is refused;
otherwise the circuit gives a point exactly if all its rounds pass, the point of the plain method
plus the shift, and reports a collision if not. Cut off after any number of rounds, the ladder
holds the sum that the plain method computes for the next round, which is never infinity. -/
theorem circuitMultiple?_matches_plain {p shift : Point} (scalar : Word) (hp : p.InGroup)
    (hs : shift.InGroup) (p_finite : p.isInfinity = false)
    (shift_finite : shift.isInfinity = false) :
    (scalar = 0 ∨ 2 ^ circuitBits ≤ scalar.toNat →
      circuitMultiple? scalar p shift = .error (.outOfRange .circuitScalar scalar.toNat)) ∧
    (∀ i < circuitBits, ∃ sum base, roundSum? scalar p shift i = .ok sum ∧
      roundBase? p i = .ok base) ∧
    (scalar ≠ 0 → scalar.toNat < 2 ^ circuitBits →
      ((∃ q, circuitMultiple? scalar p shift = .ok q) ↔
        ∀ i < circuitBits, RoundPasses scalar p shift i) ∧
      (∀ q, circuitMultiple? scalar p shift = .ok q →
        (multiple? scalar p >>= fun product => shift.add? product) = .ok q ∧
          q.isInfinity = false) ∧
      ((∀ q, circuitMultiple? scalar p shift ≠ .ok q) →
        circuitMultiple? scalar p shift = .error (.point .circuitCollision))) ∧
    (∀ i ≤ circuitBits, ∀ sum, circuitLadder? shift p (lowBits scalar.toNat i) = .ok sum →
      roundSum? scalar p shift i = .ok sum ∧ sum.isInfinity = false) := by
  obtain ⟨b, rfl⟩ := hp.exists_ofGroup
  obtain ⟨g, rfl⟩ := hs.exists_ofGroup
  have base_ne : b ≠ 0 := isInfinity_ofGroup_eq_false_iff.mp p_finite
  have start : g ≠ 0 := isInfinity_ofGroup_eq_false_iff.mp shift_finite
  refine ⟨circuitMultiple?_of_out_of_range _ _, ?_, ?_, ?_⟩
  · intro i lt
    exact ⟨_, _, roundSum?_ofGroup scalar b g i, roundBase?_ofGroup b lt⟩
  · intro pos short
    rcases circuitMultiple?_outcome pos short base_ne start with ⟨passes, run, finite⟩ | ⟨stop, run⟩
    · rw [run]
      refine ⟨⟨fun _ => passes, fun _ => ⟨_, rfl⟩⟩, ?_, fun none => absurd rfl (none _)⟩
      rintro _ ⟨⟩
      rw [multiple?_ofGroup, Outcome.ok_bind, add?_ofGroup]
      exact ⟨rfl, isInfinity_ofGroup_eq_false_iff.mpr finite⟩
    · rw [run]
      refine ⟨⟨?_, fun passes => absurd passes stop⟩, ?_, fun _ => rfl⟩
      · rintro ⟨_, ⟨⟩⟩
      · rintro _ ⟨⟩
  · intro i _ sum run
    obtain ⟨rfl, finite⟩ := circuitLadder?_lowBits_eq_ok start run
    exact ⟨roundSum?_ofGroup scalar b g i, finite⟩

/-- The largest scalar of the circuit passes all rounds from the generator and the shift point; its
successor is refused. -/
theorem circuitMultiple?_matches_plain_largest_scalar :
    let largest : Word := 0x7ffffffffffffffffffffffffffffffffffffffffffffffffffffffffffffff
    largest.toNat + 1 = 2 ^ circuitBits ∧
      Curve.generator.InGroup ∧ Curve.shift.InGroup ∧
      (∃ q, circuitMultiple? largest Curve.generator Curve.shift = .ok q ∧
        (multiple? largest Curve.generator >>= fun product => Curve.shift.add? product) = .ok q ∧
        q.isInfinity = false ∧
        ∀ i < circuitBits, RoundPasses largest Curve.generator Curve.shift i) ∧
      circuitMultiple? (largest + 1) Curve.generator Curve.shift =
        .error (.outOfRange .circuitScalar (largest + 1).toNat) := by
  intro largest
  have ladder : (Weighted.ladder? (.ofPoint Curve.shift) (.ofPoint Curve.generator)
      (lowBits largest.toNat circuitBits)).isSome = true := by
    decide +kernel
  obtain ⟨last, ladder⟩ := Option.isSome_iff_exists.mp ladder
  have run := (Curve.represents_shift.circuitMultiple Curve.represents_generator
    ⟨by decide, by decide⟩ ladder).2
  rw [Curve.ofGroup_base, Curve.ofGroup_shiftElement] at run
  obtain ⟨-, -, inRange, -⟩ :=
    circuitMultiple?_matches_plain largest generator_inGroup shift_inGroup rfl rfl
  obtain ⟨succeeds, result, -⟩ := inRange (by decide) (by decide)
  obtain ⟨outOfRange, -⟩ :=
    circuitMultiple?_matches_plain (largest + 1) generator_inGroup shift_inGroup rfl rfl
  obtain ⟨plain, finite⟩ := result _ run
  exact ⟨by decide, generator_inGroup, shift_inGroup, ⟨_, run, plain, finite, succeeds.mp ⟨_, run⟩⟩,
    outOfRange (Or.inr (by decide))⟩

end Point
end StarkSigning

import StarkSigning.Proofs.Signing.Verification

/-!
# StarkSigning.Proofs.Signing.Negation

Verification under a key and under its negation. Addition and the curve equation read a key by its
residues, but negation subtracts the word that is given: above the prime it wraps at `2 ^ 256`, and
its result is the opposite point no more. So a key and its negation are interchangeable up to the
prime, and above it only where the wrap happens to land on the curve again.

* `residue_neg_neg`: twice negated, a word is the same residue, whatever it was.
* `matchesKey_congr`: the circuit reads the `y` of a key by its residue.
* `onCurve_neg_iff`: where the negation of a key is on the curve.
* `verify?_neg_iff`: verification does not tell a key from its negation exactly there.
-/

namespace StarkSigning

namespace Field

open Word

theorem residue_neg_of_le {a : Word} (h : a.toNat ≤ fieldPrime) :
    (neg a).residue = -a.residue := by
  rcases Nat.lt_or_eq_of_le h with reduced | equal
  · rw [← ofResidue_residue reduced, neg_ofResidue, residue_ofResidue, residue_ofResidue]
  · have same : a = prime := by
      apply BitVec.eq_of_toNat_eq
      rw [equal, toNat_prime]
    rw [same]
    decide

theorem toNat_neg_of_lt {a : Word} (h : fieldPrime < a.toNat) :
    (neg a).toNat = Word.size + fieldPrime - a.toNat := by
  have ne_zero : a ≠ 0 := by
    rintro rfl
    exact absurd h (by decide)
  have bound := a.toNat_lt_size
  have wraps : Word.size = 2 ^ 256 := by decide
  rw [neg, if_neg ne_zero, BitVec.toNat_sub, toNat_prime, ← wraps]
  rw [Nat.mod_eq_of_lt (by omega)]
  omega

/-- Above the prime the difference wraps once. -/
theorem residue_neg_of_lt {a : Word} (h : fieldPrime < a.toNat) :
    (neg a).residue = (Word.size : Residue) - a.residue := by
  have below : a.toNat ≤ Word.size + fieldPrime :=
    Nat.le_add_right_of_le (Nat.le_of_lt a.toNat_lt_size)
  rw [residue, toNat_neg_of_lt h, Nat.cast_sub below, Nat.cast_add, ZMod.natCast_self, add_zero]
  rfl

theorem residue_neg_neg (a : Word) : (neg (neg a)).residue = a.residue := by
  rcases Nat.lt_or_ge fieldPrime a.toNat with above | upTo
  · have above' : fieldPrime < (neg a).toNat := by
      rw [toNat_neg_of_lt above]
      have bound := a.toNat_lt_size
      omega
    rw [residue_neg_of_lt above', residue_neg_of_lt above, sub_sub_cancel]
  · have upTo' : (neg a).toNat ≤ fieldPrime := by
      rw [neg]
      split
      · exact Nat.zero_le _
      · have below : a ≤ prime := by
          rw [BitVec.le_def, toNat_prime]
          exact upTo
        rw [BitVec.toNat_sub_of_le below, toNat_prime]
        exact Nat.sub_le _ _
    rw [residue_neg_of_le upTo', residue_neg_of_le upTo, neg_neg]

end Field

namespace Point

open Word Curve

/-- From the second round on the base is a double, which has no trace of the representation. -/
theorem circuitLadder?_congr {x y y' : Word} (same : y.residue = y'.residue) (sum : Point)
    (bits : List Bool) :
    circuitLadder? sum (affine x y) bits = circuitLadder? sum (affine x y') bits := by
  cases bits with
  | nil => rw [circuitLadder?, circuitLadder?]
  | cons bit rest =>
    cases sum with
    | infinity =>
      have refused : ∀ base, apart infinity base = false := fun base => rfl
      rw [circuitLadder?, circuitLadder?, refused, refused, Bool.not_false, if_pos rfl, if_pos rfl]
    | affine x₁ y₁ =>
      rw [circuitLadder?, circuitLadder?, add?, add?, chord?_congr rfl rfl rfl same, double?,
        double?, tangent?_congr rfl same, apart, apart]

theorem circuitMultiple?_congr {x y y' : Word} (same : y.residue = y'.residue) (scalar : Word)
    (shift : Point) :
    circuitMultiple? scalar (affine x y) shift = circuitMultiple? scalar (affine x y') shift := by
  rw [circuitMultiple?, circuitMultiple?, circuitLadder?_congr same, isInfinity, isInfinity]

/-- A wrapped negation of a point of the curve has its `x`, and its `y` only up to the wrap. -/
theorem onCurve_neg_iff {x y : Word} (onCurve : (affine x y).onCurve = true) :
    (affine x y).neg.onCurve = true ↔
      y.toNat ≤ fieldPrime ∨ 2 * y.toNat ≡ Word.size [MOD fieldPrime] := by
  have size_ne_zero : (Word.size : Residue) ≠ 0 := by
    rw [Ne, ZMod.natCast_eq_zero_iff]
    decide
  rw [onCurve_affine_iff, Curve.equation_iff] at onCurve
  rw [neg, onCurve_affine_iff, Curve.equation_iff, ← onCurve]
  rcases Nat.lt_or_ge fieldPrime y.toNat with above | upTo
  · have turns : ((Word.size : Residue) - y.residue) ^ 2 - y.residue ^ 2 =
        Word.size * (Word.size - 2 * y.residue) := by
      ring
    rw [Field.residue_neg_of_lt above, ← sub_eq_zero, turns, mul_eq_zero,
      or_iff_right size_ne_zero, or_iff_right (Nat.not_le_of_lt above), sub_eq_zero,
      ← ZMod.natCast_eq_natCast_iff, Nat.cast_mul]
    exact eq_comm
  · rw [Field.residue_neg_of_le upTo, neg_sq]
    exact iff_of_true rfl (Or.inl upTo)

end Point

namespace Signature

open Curve Point Outcome

theorem matchesKey_congr {x y y' : Word} (same : y.residue = y'.residue) (hash r w : Word) :
    matchesKey hash r w (affine x y) = matchesKey hash r w (affine x y') := by
  rw [matchesKey, matchesKey, recomputeX?, recomputeX?, circuitMultiple?_congr same]

theorem matchesKey_neg_neg (hash r w : Word) (publicKey : Point) :
    matchesKey hash r w publicKey.neg.neg = matchesKey hash r w publicKey := by
  cases publicKey with
  | infinity => rfl
  | affine x y => exact matchesKey_congr (Field.residue_neg_neg y) hash r w

/-- Both keys pass the test of the curve equation, and are then tried in opposite order. -/
theorem verify?_neg_of_onCurve {publicKey : Point} (onCurve : publicKey.onCurve = true)
    (onCurve' : publicKey.neg.onCurve = true) (messageHash : Felt) (sig : Signature) :
    verify? publicKey.neg messageHash sig = verify? publicKey messageHash sig := by
  have infinite : publicKey.neg.isInfinity = publicKey.isInfinity := by
    cases publicKey with
    | infinity => rfl
    | affine x y => rfl
  simp only [verify?, infinite, onCurve, onCurve', matchesKey_neg_neg, Bool.or_comm]

theorem verify?_ne_ok_of_not_onCurve {publicKey : Point} (h : publicKey.onCurve = false)
    (messageHash : Felt) (sig : Signature) (accepted : Bool) :
    verify? publicKey messageHash sig ≠ .ok accepted := by
  intro answered
  obtain ⟨w, wf, -⟩ := verify?_eq_ok_iff.mp answered
  rw [wf.onCurve] at h
  cases h

/-- Every usable key has arguments on which verification gives an answer. -/
theorem exists_verify?_eq_ok {publicKey : Point} (finite : publicKey.isInfinity = false)
    (onCurve : publicKey.onCurve = true) :
    ∃ accepted, verify? publicKey Felt.one ⟨Felt.one, Felt.one⟩ = .ok accepted := by
  have inverse : Modular.inverse? Felt.one.toWord orderWord = .ok 1 :=
    eq_ok_of_toOption (by decide +kernel)
  have wf : WellFormed publicKey Felt.one ⟨Felt.one, Felt.one⟩ 1 :=
    ⟨by decide, by decide, by decide, by decide, by decide, by decide, finite, onCurve, inverse,
      by decide, by decide⟩
  exact ⟨_, verify?_eq_ok_iff.mpr ⟨1, wf, rfl⟩⟩

/-- Of a finite key on the curve, verification does not tell the negation from the key itself
exactly if the `y` of the key is not above the prime, or is one that the wrap takes to itself. -/
theorem verify?_neg_iff {x y : Word} (onCurve : (affine x y).onCurve = true) :
    (∀ messageHash sig,
      verify? (affine x y).neg messageHash sig = verify? (affine x y) messageHash sig) ↔
      y.toNat ≤ fieldPrime ∨ 2 * y.toNat ≡ Word.size [MOD fieldPrime] := by
  rw [← onCurve_neg_iff onCurve]
  constructor
  · intro alike
    obtain ⟨accepted, answered⟩ := exists_verify?_eq_ok rfl onCurve
    rw [← alike] at answered
    by_contra off
    exact verify?_ne_ok_of_not_onCurve (Bool.eq_false_of_not_eq_true off) _ _ _ answered
  · intro onCurve' messageHash sig
    exact verify?_neg_of_onCurve onCurve onCurve' messageHash sig

/-- The generator and its negation are interchangeable as keys. -/
theorem verify?_neg_iff_generator :
    generator.onCurve = true ∧ ∀ messageHash sig,
      verify? generator.neg messageHash sig = verify? generator messageHash sig := by
  have onCurve : generator.onCurve = true := rfl
  exact ⟨onCurve, (verify?_neg_iff onCurve).mpr (Or.inl (by decide))⟩

/-- The generator with its `y` written one prime higher is accepted as a key, and a signature of
the private key one is accepted under it; the negation of this key is refused. -/
theorem verify?_neg_above_prime :
    let key : Point :=
      .affine 0x1ef15c18599971b7beced415a40f0c7deacfd9b0d1819e03d723d8bc943cfca
        0x85668060aa49741b7be4801df46ec62de53ecd11abe43a32873000c36e8dc20
    let messageHash : Felt := ⟨2, by decide⟩
    let sig : Signature :=
      ⟨⟨0x411494b501a98abd8262b0da1351e17899a0c4ef23dd2f96fec5ba847310b20, by decide⟩,
        ⟨0x405c3191ab3883ef2b763af35bc5f5d15b3b4e99461d70e84c654a351a7c81b, by decide⟩⟩
    key.isInfinity = false ∧ key.onCurve = true ∧
      verify? key messageHash sig = .ok true ∧
      verify? key.neg messageHash sig = .error (.point .unusablePublicKey) := by
  intro key messageHash sig
  have inverse : Modular.inverse? sig.s.toWord orderWord =
      .ok 0x1ce0310e48aa17f713cbd8f8acc5a88703a359d2ef27d33ef95b8cfce4bcc91 :=
    eq_ok_of_toOption (by decide +kernel)
  have wf : ∀ publicKey : Point, publicKey.isInfinity = false → publicKey.onCurve = true →
      WellFormed publicKey messageHash sig
        0x1ce0310e48aa17f713cbd8f8acc5a88703a359d2ef27d33ef95b8cfce4bcc91 := by
    intro publicKey finite onCurve
    exact ⟨by decide, by decide, by decide, by decide, by decide, by decide, finite, onCurve,
      inverse, by decide, by decide⟩
  have key_onCurve : key.onCurve = true := rfl
  have neg_offCurve : key.neg.onCurve = false := rfl
  have generator_wf := wf (ofGroup base) (by rw [ofGroup_base]; rfl) (onCurve_ofGroup base)
  obtain ⟨-, matching⟩ :=
    matchesKey_of_runEquation? represents_generator generator_wf (by decide +kernel)
  rw [ofGroup_base] at matching
  -- The `y` of the key and that of the generator are one residue.
  have same : matchesKey messageHash.toWord sig.r.toWord
      0x1ce0310e48aa17f713cbd8f8acc5a88703a359d2ef27d33ef95b8cfce4bcc91 key = true := by
    rw [← matching]
    exact matchesKey_congr (by decide +kernel) _ _ _
  refine ⟨rfl, key_onCurve, verify?_eq_ok_iff.mpr ⟨_, wf key rfl key_onCurve, ?_⟩, ?_⟩
  · rw [same, Bool.true_or]
  · rfl

end Signature
end StarkSigning

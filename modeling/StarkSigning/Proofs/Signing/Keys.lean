import StarkSigning.Proofs.Curve.Generator
import StarkSigning.Proofs.Curve.Laws
import StarkSigning.Proofs.Outcome
import StarkSigning.Signing.Signature

/-!
# StarkSigning.Proofs.Signing.Keys

From private keys to public ones. The generator has the order of the curve, so the multiples by
numbers from one up to below the order are all finite and all different; two of them share their
`x` only where the numbers sum to the order.

* `requireBelow_eq_ok_iff`, `requireBelow_eq_error_iff`: the range check of signing.
* `publicKey?_eq_ok`: every private key has a public key, its multiple of the generator.
* `smul_base_eq_neg_iff`: opposite multiples.
* `publicKey?_faithful`: which numbers have a public key, and which keys coincide.
-/

namespace StarkSigning

theorem requireBelow_eq_ok_iff {what : Quantity} {value bound : Nat} {u : Unit} :
    requireBelow what value bound = .ok u ↔ 0 < value ∧ value < bound := by
  rw [requireBelow]
  split
  · rename_i outside
    constructor
    · intro h; cases h
    · intro inside; omega
  · rename_i inside
    constructor
    · intro _; omega
    · intro _; rfl

theorem requireBelow_eq_error_iff {what : Quantity} {value bound : Nat} {e : Error} :
    requireBelow what value bound = .error e ↔
      (value = 0 ∨ bound ≤ value) ∧ e = .outOfRange what value := by
  rw [requireBelow]
  split
  · rename_i outside
    constructor
    · intro h; cases h; exact ⟨outside, rfl⟩
    · rintro ⟨-, rfl⟩; rfl
  · rename_i inside
    constructor
    · intro h; cases h
    · rintro ⟨outside, -⟩; exact absurd outside inside

open Curve Point Outcome

theorem publicKey?_eq_ok {privateKey : Felt} (pos : 0 < privateKey.val)
    (lt : privateKey.val < order) :
    publicKey? privateKey = .ok (ofGroup (privateKey.val • base)) := by
  have finite := smul_base_ne_zero pos lt
  have inRange : requireBelow .privateKey privateKey.val order = .ok () :=
    requireBelow_eq_ok_iff.mpr ⟨pos, lt⟩
  rw [publicKey?, inRange, ok_bind, multiple?_generator, ok_bind, Felt.toNat_toWord]
  cases result : ofGroup (privateKey.val • base) with
  | infinity => exact absurd (ofGroup_eq_infinity_iff.mp result) finite
  | affine x y => rfl

/-- The only fault is a number out of range; no public key is infinite. -/
theorem publicKey?_eq_error_iff {privateKey : Felt} {e : Error} :
    publicKey? privateKey = .error e ↔
      (privateKey.val = 0 ∨ order ≤ privateKey.val) ∧
        e = .outOfRange .privateKey privateKey.val := by
  by_cases outside : privateKey.val = 0 ∨ order ≤ privateKey.val
  · have refused : requireBelow .privateKey privateKey.val order =
        .error (.outOfRange .privateKey privateKey.val) :=
      requireBelow_eq_error_iff.mpr ⟨outside, rfl⟩
    rw [publicKey?, refused, error_bind, Except.error.injEq, eq_comm]
    simp only [outside, true_and]
  · have derived : publicKey? privateKey = .ok (ofGroup (privateKey.val • base)) :=
      publicKey?_eq_ok (by omega) (by omega)
    simp only [derived, outside, false_and, reduceCtorEq]

theorem smul_base_inj {m n : Nat} (hm : m < order) (hn : n < order) :
    m • base = n • base ↔ m = n := by
  rw [smul_base_eq_iff, Nat.ModEq, Nat.mod_eq_of_lt hm, Nat.mod_eq_of_lt hn]

theorem smul_base_eq_neg_iff {m n : Nat} (hm : 0 < m ∧ m < order) (hn : 0 < n ∧ n < order) :
    m • base = -(n • base) ↔ m = order - n := by
  rw [eq_neg_iff_add_eq_zero, ← add_nsmul, smul_base_eq_zero_iff]
  constructor
  · rintro ⟨count, total⟩
    -- The sum lies strictly between zero and twice the order.
    have one : count = 1 := by
      rcases count with _ | _ | count
      · omega
      · rfl
      · have large : order * 2 ≤ order * (count + 1 + 1) := Nat.mul_le_mul_left _ (by omega)
        omega
    subst one
    omega
  · intro rest
    exact ⟨1, by omega⟩

/-- A number is refused exactly if it is zero or not below the order. Any other has a public key,
its multiple of the generator, a finite point of the curve with reduced coordinates; different
numbers have different keys, and the keys of two numbers share their `x` exactly if the numbers are
equal or sum to the order. -/
theorem publicKey?_faithful (k : Felt) :
    (∀ e, publicKey? k = .error e ↔
      (k.val = 0 ∨ order ≤ k.val) ∧ e = .outOfRange .privateKey k.val) ∧
    (0 < k.val ∧ k.val < order → ∃ p, publicKey? k = .ok p ∧
      multiple? k.toWord generator = .ok p ∧ p.isInfinity = false ∧ p.InGroup ∧
      ∀ k' : Felt, 0 < k'.val ∧ k'.val < order → ∃ p', publicKey? k' = .ok p' ∧
        (p' = p ↔ k' = k) ∧ (p'.x? = p.x? ↔ k' = k ∨ k'.val = order - k.val)) := by
  refine ⟨fun _ => publicKey?_eq_error_iff, ?_⟩
  intro range
  have finite := isInfinity_ofGroup_eq_false_iff.mpr (smul_base_ne_zero range.1 range.2)
  have multiple : multiple? k.toWord generator = .ok (ofGroup (k.val • base)) := by
    rw [multiple?_generator, Felt.toNat_toWord]
  refine ⟨_, publicKey?_eq_ok range.1 range.2, multiple, finite, inGroup_ofGroup _, ?_⟩
  intro k' range'
  have equal : k'.val • base = k.val • base ↔ k' = k := by
    rw [smul_base_inj range'.2 range.2, Felt.ext_iff]
  refine ⟨_, publicKey?_eq_ok range'.1 range'.2, ?_, ?_⟩
  · rw [ofGroup_injective.eq_iff, equal]
  · rw [x?_ofGroup_eq_iff, equal, smul_base_eq_neg_iff range' range]

/-- The smallest and the largest private key belong to the generator and its negation. -/
theorem publicKey?_faithful_outermost :
    let largest : Felt := ⟨order - 1, by decide⟩
    (∃ p p', publicKey? Felt.one = .ok p ∧ publicKey? largest = .ok p' ∧ p'.x? = p.x? ∧ p' ≠ p) ∧
      publicKey? Felt.zero = .error (.outOfRange .privateKey 0) ∧
      publicKey? ⟨order, by decide⟩ = .error (.outOfRange .privateKey order) := by
  intro largest
  obtain ⟨-, derives⟩ := publicKey?_faithful Felt.one
  obtain ⟨p, first, -, -, -, others⟩ := derives (by decide)
  obtain ⟨p', last, same, sameX⟩ := others largest (by decide)
  obtain ⟨zeroFails, -⟩ := publicKey?_faithful Felt.zero
  obtain ⟨orderFails, -⟩ := publicKey?_faithful ⟨order, by decide⟩
  refine ⟨⟨p, p', first, last, sameX.mpr (Or.inr rfl), ?_⟩, ?_, ?_⟩
  · rw [Ne, same]
    decide
  · exact (zeroFails _).mpr ⟨Or.inl rfl, rfl⟩
  · exact (orderFails _).mpr ⟨Or.inr (Nat.le_refl _), rfl⟩

end StarkSigning

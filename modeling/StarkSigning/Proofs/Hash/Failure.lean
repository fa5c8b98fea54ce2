import StarkSigning.Proofs.Curve.Circuit
import StarkSigning.Proofs.Hash.Binding
import StarkSigning.Proofs.Hash.Formula

/-!
# StarkSigning.Proofs.Hash.Failure

How a Pedersen hash fails. The sum starts at the shift point, which is finite. Before every digit
either the sum and the point of the digit have one `x`, which is the failure, or they are not
opposite and the next sum is finite again. So a walk that gets through ends in a finite point with
reduced coordinates, whose `x` is an element.

* `walk?_outcome`: a walk from a finite sum collides or ends in a finite sum.
* `hash?_outcome`: so does the hash of at most two elements.
* `hashWithLength?_outcome`: the hash of a list fails only at a pair that it hashes.
-/

namespace StarkSigning
namespace Pedersen

open Point Curve Outcome

/-- One step of a walk between elements of the group. -/
theorem walk?_cons_outcome {g : Curve.Group} (bit : Bool) (b : Curve.Group)
    (rest : List (Bool × Point)) (start : g ≠ 0) :
    walk? (ofGroup g) ((bit, ofGroup b) :: rest) = .error (.point .pedersenCollision) ∨
      (walk? (ofGroup g) ((bit, ofGroup b) :: rest) = walk? (ofGroup (g + bit.toNat • b)) rest ∧
        g + bit.toNat • b ≠ 0) := by
  by_cases x_eq : (ofGroup g).x? = (ofGroup b).x?
  · left
    rw [walk?, if_pos x_eq]
  · right
    exact ⟨walk?_cons_ofGroup bit rest x_eq, add_digit_ne_zero start x_eq bit⟩

theorem walk?_outcome {g : Curve.Group} (start : g ≠ 0) (steps : List (Bool × Curve.Group)) :
    walk? (ofGroup g) (steps.map (Prod.map id ofGroup)) = .error (.point .pedersenCollision) ∨
      ∃ g', g' ≠ 0 ∧ walk? (ofGroup g) (steps.map (Prod.map id ofGroup)) = .ok (ofGroup g') := by
  induction steps generalizing g with
  | nil => exact Or.inr ⟨g, start, rfl⟩
  | cons step rest ih =>
    obtain ⟨bit, b⟩ := step
    rw [List.map_cons, Prod.map_apply, id]
    rcases walk?_cons_outcome bit b _ start with collides | ⟨next, finite⟩
    · exact Or.inl collides
    · rw [next]
      exact ih finite

/-- Elements are absorbed one by one, each from a finite sum. -/
theorem absorb?_outcome {g : Curve.Group} (start : g ≠ 0) (items : List (Felt × Point × Point)) :
    absorb? (ofGroup g) (items.map fun item => (item.1, row item.2.1 item.2.2)) =
        .error (.point .pedersenCollision) ∨
      ∃ g', g' ≠ 0 ∧ absorb? (ofGroup g)
        (items.map fun item => (item.1, row item.2.1 item.2.2)) = .ok (ofGroup g') := by
  induction items generalizing g with
  | nil => exact Or.inr ⟨g, start, rfl⟩
  | cons item rest ih =>
    rw [List.map_cons, absorb?, row, List.zip_map_right]
    rcases walk?_outcome start _ with collides | ⟨next, finite, walked⟩
    · rw [collides]
      exact Or.inl rfl
    · rw [walked]
      exact ih finite

theorem shiftElement_ne_zero : shiftElement ≠ 0 := by
  apply isInfinity_ofGroup_eq_false_iff.mp
  rw [ofGroup_shiftElement]
  rfl

theorem exists_result?_eq_ok {g : Curve.Group} (finite : g ≠ 0) :
    ∃ h, result? (ofGroup g) = .ok h := by
  obtain ⟨x, y, point, x_lt, -⟩ := exists_affine_of_ne_zero finite
  obtain ⟨h, read, -⟩ := Word.exists_toFelt?_eq_ok x_lt
  rw [point]
  exact ⟨h, read⟩

/-- The hash of at most two elements is an element or a reported collision. -/
theorem hash?_outcome {elements : List Felt} (few : elements.length ≤ maxInputs) :
    hash? elements = .error (.point .pedersenCollision) ∨ ∃ h, hash? elements = .ok h := by
  rw [hash?_eq_absorb? few]
  rcases absorb?_outcome shiftElement_ne_zero (elements.zip bases) with
    collides | ⟨sum, finite, absorbed⟩
  · rw [collides]
    exact Or.inl rfl
  · rw [absorbed, ok_bind]
    exact Or.inr (exists_result?_eq_ok finite)

theorem fold?_outcome (start : Felt) (elements : List Felt) :
    (fold? start elements = .error (.point .pedersenCollision) ∧
      ∃ p ∈ foldPairs start elements, hash? [p.1, p.2] = .error (.point .pedersenCollision)) ∨
    ∃ h, fold? start elements = .ok h := by
  induction elements generalizing start with
  | nil => exact Or.inr ⟨start, rfl⟩
  | cons e rest ih =>
    have pair : [start, e].length ≤ maxInputs := Nat.le_refl 2
    rw [fold?]
    rcases hash?_outcome pair with collides | ⟨next, hashed⟩
    · left
      rw [collides, foldPairs]
      exact ⟨rfl, (start, e), List.mem_cons_self, collides⟩
    · rw [hashed, ok_bind, foldPairs_cons hashed]
      rcases ih next with ⟨collides, p, member, here⟩ | result
      · exact Or.inl ⟨collides, p, List.mem_cons_of_mem _ member, here⟩
      · exact Or.inr result

/-- The hash of a list is an element, or the collision of a pair that it hashes. -/
theorem hashWithLength?_outcome (elements : List Felt) :
    (hashWithLength? elements = .error (.point .pedersenCollision) ∧
      ∃ p ∈ hashedPairs elements, hash? [p.1, p.2] = .error (.point .pedersenCollision)) ∨
    ∃ h, hashWithLength? elements = .ok h := by
  rw [hashWithLength?_eq_fold?, hashedPairs]
  exact fold?_outcome _ _

end Pedersen
end StarkSigning

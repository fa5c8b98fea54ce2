import Mathlib.Data.Nat.Bitwise
import StarkSigning.Proofs.Hash.Pedersen

/-!
# StarkSigning.Proofs.Hash.Formula

The Pedersen hash without its table. A walk along the doublings of a base adds the multiple of the
base by the number that the digits write, so that a hash is the `x` of the shift point plus, for
every element, its remainder modulo `2 ^ 248` times its first base and its quotient times its
second. The 252 digits of a walk are all digits of an element; and as both bases have the order of
the curve, an odd prime, no digit of an element leaves the sum as it is when it changes.

* `formula?`: the sum by plain multiplications.
* `walk?_row_eq_ok`: what one walk adds.
* `term_ne_of_flips`: what changing one digit does.
* `hash?_eq_x_of_formula`: a hash is the `x` of the formula, in which every digit counts.
-/

namespace StarkSigning
namespace Pedersen

open Point Curve Outcome

/-- The bases of each element, for its low digits and for the others. -/
def bases : List (Point × Point) :=
  [(pedersenBase0, pedersenBase1), (pedersenBase2, pedersenBase3)]

/-- The sum and one element on its bases, by plain multiplications. -/
def addElement? (sum : Point) (e : Felt) (low high : Point) : Except Error Point := do
  let remainder ← multiple? (Word.ofNat (e.val % 2 ^ lowBitCount)) low
  let quotient ← multiple? (Word.ofNat (e.val / 2 ^ lowBitCount)) high
  let middle ← sum.add? remainder
  middle.add? quotient

/-- The sum and all elements, each on its bases. -/
def formula? (sum : Point) : List (Felt × Point × Point) → Except Error Point
  | [] => .ok sum
  | (e, low, high) :: rest => do
    let next ← addElement? sum e low high
    formula? next rest

/-- What an element adds to the sum. -/
def term (item : Felt × Point × Point) : Curve.Group :=
  (item.1.val % 2 ^ lowBitCount) • item.2.1.toGroup +
    (item.1.val / 2 ^ lowBitCount) • item.2.2.toGroup

theorem valid_of_mem_bases {low high : Point} (h : (low, high) ∈ bases) :
    Valid low ∧ Valid high := by
  simp only [bases, List.mem_cons, Prod.mk.injEq, List.not_mem_nil, or_false] at h
  rcases h with ⟨rfl, rfl⟩ | ⟨rfl, rfl⟩
  · exact ⟨valid_pedersenBase0, valid_pedersenBase1⟩
  · exact ⟨valid_pedersenBase2, valid_pedersenBase3⟩

/-! ## The formula in the group -/

theorem addElement?_ofGroup (g : Curve.Group) (e : Felt) {low high : Point} (hl : Valid low)
    (hh : Valid high) :
    addElement? (ofGroup g) e low high = .ok (ofGroup (g + term (e, low, high))) := by
  have small : e.val < Word.size := Nat.lt_trans e.val_lt (by decide)
  have remainder : (Word.ofNat (e.val % 2 ^ lowBitCount)).toNat = e.val % 2 ^ lowBitCount :=
    Word.toNat_ofNat (Nat.lt_of_le_of_lt (Nat.mod_le _ _) small)
  have quotient : (Word.ofNat (e.val / 2 ^ lowBitCount)).toNat = e.val / 2 ^ lowBitCount :=
    Word.toNat_ofNat (Nat.lt_of_le_of_lt (Nat.div_le_self _ _) small)
  have lowTerm := multiple?_ofGroup (Word.ofNat (e.val % 2 ^ lowBitCount)) low.toGroup
  have highTerm := multiple?_ofGroup (Word.ofNat (e.val / 2 ^ lowBitCount)) high.toGroup
  rw [hl.1, remainder] at lowTerm
  rw [hh.1, quotient] at highTerm
  rw [addElement?, lowTerm, ok_bind, highTerm, ok_bind, add?_ofGroup, ok_bind, add?_ofGroup, term,
    add_assoc]

theorem formula?_ofGroup (g : Curve.Group) {items : List (Felt × Point × Point)}
    (inBases : ∀ item ∈ items, item.2 ∈ bases) :
    formula? (ofGroup g) items = .ok (ofGroup (g + (items.map term).sum)) := by
  induction items generalizing g with
  | nil => rw [formula?, List.map_nil, List.sum_nil, add_zero]
  | cons item rest ih =>
    obtain ⟨e, low, high⟩ := item
    obtain ⟨hl, hh⟩ := valid_of_mem_bases (inBases _ List.mem_cons_self)
    have inBases' : ∀ item ∈ rest, item.2 ∈ bases := fun item member =>
      inBases item (List.mem_cons_of_mem _ member)
    rw [formula?, addElement?_ofGroup g e hl hh, ok_bind, ih _ inBases', List.map_cons,
      List.sum_cons, add_assoc]

/-! ## Walks in the group -/

theorem walk?_doublings_eq_ok {g b : Curve.Group} {bits : List Bool} {p : Point}
    (h : walk? (ofGroup g) (bits.zip ((doublings b bits.length).map ofGroup)) = .ok p) :
    p = ofGroup (g + bitsNumber bits • b) := by
  induction bits generalizing g b with
  | nil =>
    cases h
    rw [bitsNumber, zero_nsmul, add_zero]
  | cons bit rest ih =>
    rw [List.length_cons, doublings, List.map_cons, List.zip_cons_cons] at h
    by_cases x_eq : (ofGroup g).x? = (ofGroup b).x?
    · rw [walk?, if_pos x_eq] at h
      cases h
    · rw [walk?_cons_ofGroup bit _ x_eq] at h
      rw [ih h, add_bitsNumber_cons]

theorem walk?_lowBits_eq_ok {g b : Curve.Group} {n count : Nat} {p : Point}
    (h : walk? (ofGroup g) ((lowBits n count).zip ((doublings b count).map ofGroup)) = .ok p) :
    p = ofGroup (g + (n % 2 ^ count) • b) := by
  have points : doublings b count = doublings b (lowBits n count).length := by
    rw [length_lowBits]
  rw [points] at h
  rw [walk?_doublings_eq_ok h, number_lowBits, Nat.pow_eq]

/-- The digits of a walk are all digits of the element: those behind the low ones write the whole
quotient. -/
theorem highDigits_eq (e : Felt) :
    e.val / 2 ^ lowBitCount % 2 ^ (elementBits - lowBitCount) = e.val / 2 ^ lowBitCount := by
  have small : e.val < 2 ^ lowBitCount * 2 ^ (elementBits - lowBitCount) :=
    Nat.lt_trans e.val_lt (by decide)
  exact Nat.mod_eq_of_lt (Nat.div_lt_of_lt_mul small)

theorem walk?_row_eq_ok {g : Curve.Group} {e : Felt} {low high p : Point}
    (h : walk? (ofGroup g) ((lowBits e.val elementBits).zip (row low high)) = .ok p) :
    p = ofGroup (g + term (e, low, high)) := by
  rw [zip_row, walk?_append] at h
  obtain ⟨middle, first, second⟩ := bind_eq_ok_iff.mp h
  rw [walk?_lowBits_eq_ok first] at second
  rw [walk?_lowBits_eq_ok second, highDigits_eq, term, add_assoc]

theorem absorb?_eq_ok {g : Curve.Group} {items : List (Felt × Point × Point)} {p : Point}
    (h : absorb? (ofGroup g) (items.map fun item => (item.1, row item.2.1 item.2.2)) = .ok p) :
    p = ofGroup (g + (items.map term).sum) := by
  induction items generalizing g with
  | nil =>
    cases h
    rw [List.map_nil, List.sum_nil, add_zero]
  | cons item rest ih =>
    obtain ⟨e, low, high⟩ := item
    rw [List.map_cons, absorb?] at h
    split at h
    · cases h
    · rename_i next walked
      rw [walk?_row_eq_ok walked] at h
      rw [ih h, List.map_cons, List.sum_cons, add_assoc]

theorem result?_eq_ok {p : Point} {h : Felt} (written : result? p = .ok h) :
    p.x? = some h.toWord := by
  cases p with
  | infinity => cases written
  | affine x y => rw [x?, Word.toFelt?_eq_ok written]

/-- Each element of a list of at most two has the row of its own bases. -/
theorem zip_rows (elements : List Felt) :
    elements.zip [row pedersenBase0 pedersenBase1, row pedersenBase2 pedersenBase3] =
      (elements.zip bases).map fun item => (item.1, row item.2.1 item.2.2) := by
  have rows : [row pedersenBase0 pedersenBase1, row pedersenBase2 pedersenBase3] =
      bases.map fun pair => row pair.1 pair.2 := rfl
  rw [rows]
  exact List.zip_map_right

/-- The hash of at most two elements walks each along the row of its bases. -/
theorem hash?_eq_absorb? {elements : List Felt} (few : elements.length ≤ maxInputs) :
    hash? elements = absorb? (ofGroup shiftElement)
      ((elements.zip bases).map fun item => (item.1, row item.2.1 item.2.2)) >>= result? := by
  rw [hash?, if_neg (Nat.not_lt_of_le few), table?_eq, ok_bind, zip_rows, ofGroup_shiftElement]

theorem hash?_eq_ok {elements : List Felt} {h : Felt} (hashed : hash? elements = .ok h) :
    elements.length ≤ maxInputs ∧
      (ofGroup (shiftElement + ((elements.zip bases).map term).sum)).x? = some h.toWord := by
  rcases Nat.lt_or_ge maxInputs elements.length with many | few
  · rw [hash?, if_pos many] at hashed
    cases hashed
  · rw [hash?_eq_absorb? few] at hashed
    obtain ⟨sum, absorbed, written⟩ := bind_eq_ok_iff.mp hashed
    rw [absorb?_eq_ok absorbed] at written
    exact ⟨few, result?_eq_ok written⟩

theorem formula?_zip_bases (elements : List Felt) :
    formula? shift (elements.zip bases) =
      .ok (ofGroup (shiftElement + ((elements.zip bases).map term).sum)) := by
  rw [← ofGroup_shiftElement]
  apply formula?_ofGroup
  rintro ⟨e, pair⟩ member
  exact (List.of_mem_zip member).2

/-! ## Single digits -/

/-- The second element is the first with this one binary digit changed. -/
def Flips (e e' : Felt) (i : Nat) : Prop :=
  e'.val = e.val ^^^ 2 ^ i

theorem xor_two_pow_eq (n i : Nat) : n ^^^ 2 ^ i = n + 2 ^ i ∨ n = (n ^^^ 2 ^ i) + 2 ^ i := by
  have low : (n ^^^ 2 ^ i) % 2 ^ i = n % 2 ^ i := by
    rw [Nat.xor_mod_two_pow, Nat.mod_self, Nat.xor_zero]
  have high : (n ^^^ 2 ^ i) / 2 ^ i = n / 2 ^ i ^^^ 1 := by
    rw [Nat.xor_div_two_pow, Nat.div_self (Nat.two_pow_pos i)]
  have split := Nat.div_add_mod n (2 ^ i)
  have split' := Nat.div_add_mod (n ^^^ 2 ^ i) (2 ^ i)
  rw [low, high] at split'
  rcases Nat.even_or_odd (n / 2 ^ i) with even | odd
  · rw [Nat.xor_one_of_even even, Nat.mul_add] at split'
    left
    omega
  · rw [Nat.xor_one_of_odd odd, Nat.mul_sub] at split'
    have above : 2 ^ i * 1 ≤ 2 ^ i * (n / 2 ^ i) := Nat.mul_le_mul_left _ odd.pos
    right
    omega

/-- Changing one digit of a scalar changes the multiple of a point that has the order of the
curve. -/
theorem xor_two_pow_smul_ne {g : Curve.Group} (h : addOrderOf g = order) (n i : Nat) :
    (n ^^^ 2 ^ i) • g ≠ n • g := by
  -- The order is an odd prime, which divides no power of two.
  have power : 2 ^ i • g ≠ 0 := by
    rw [Ne, ← addOrderOf_dvd_iff_nsmul_eq_zero, h]
    intro divides
    exact absurd (order_prime.dvd_of_dvd_pow divides) (by decide)
  intro same
  rcases xor_two_pow_eq n i with more | less
  · rw [more, add_nsmul] at same
    exact power (left_eq_add.mp same.symm)
  · have sum := congrArg (fun m : Nat => m • g) less
    rw [add_nsmul, same] at sum
    exact power (left_eq_add.mp sum)

theorem addOrderOf_of_mem_bases {low high : Point} (h : (low, high) ∈ bases) :
    addOrderOf low.toGroup = order ∧ addOrderOf high.toGroup = order := by
  have returns : ∀ pair ∈ bases, ladderReturns pair.1 = true ∧ ladderReturns pair.2 = true := by
    decide +kernel
  obtain ⟨hl, hh⟩ := valid_of_mem_bases h
  obtain ⟨lowReturns, highReturns⟩ := returns _ h
  exact ⟨addOrderOf_of_ladderReturns (Weighted.represents_ofPoint hl.1 hl.2) lowReturns,
    addOrderOf_of_ladderReturns (Weighted.represents_ofPoint hh.1 hh.2) highReturns⟩

/-- A changed digit changes the remainder or the quotient of the element, never both. -/
theorem term_ne_of_flips {e e' : Felt} {i : Nat} {low high : Point} (flips : Flips e e' i)
    (h : (low, high) ∈ bases) : term (e', low, high) ≠ term (e, low, high) := by
  obtain ⟨lowOrder, highOrder⟩ := addOrderOf_of_mem_bases h
  have remainder : e'.val % 2 ^ lowBitCount =
      e.val % 2 ^ lowBitCount ^^^ 2 ^ i % 2 ^ lowBitCount := by
    rw [flips, Nat.xor_mod_two_pow]
  have quotient : e'.val / 2 ^ lowBitCount =
      e.val / 2 ^ lowBitCount ^^^ 2 ^ i / 2 ^ lowBitCount := by
    rw [flips, Nat.xor_div_two_pow]
  rw [term, term]
  dsimp only
  rw [remainder, quotient]
  rcases Nat.lt_or_ge i lowBitCount with isLow | isHigh
  · have small : 2 ^ i < 2 ^ lowBitCount := Nat.pow_lt_pow_right (by decide) isLow
    rw [Nat.mod_eq_of_lt small, Nat.div_eq_of_lt small, Nat.xor_zero]
    intro same
    exact xor_two_pow_smul_ne lowOrder _ i (add_right_cancel same)
  · have divides : 2 ^ lowBitCount ∣ 2 ^ i := pow_dvd_pow 2 isHigh
    rw [Nat.mod_eq_zero_of_dvd divides, Nat.pow_div isHigh (by decide), Nat.xor_zero]
    intro same
    exact xor_two_pow_smul_ne highOrder _ (i - lowBitCount) (add_left_cancel same)

/-- One of at most two elements stands on bases of its own. -/
theorem zip_bases_split {before after : List Felt} {e : Felt}
    (few : (before ++ e :: after).length ≤ maxInputs) :
    ∃ first low high last, (low, high) ∈ bases ∧
      ∀ e', (before ++ e' :: after).zip bases = first ++ (e', low, high) :: last := by
  rw [maxInputs, List.length_append, List.length_cons] at few
  cases before with
  | nil =>
    exact ⟨[], pedersenBase0, pedersenBase1, after.zip [(pedersenBase2, pedersenBase3)],
      List.mem_cons_self, fun e' => rfl⟩
  | cons other others =>
    rw [List.length_cons] at few
    obtain rfl : others = [] := List.length_eq_zero_iff.mp (by omega)
    obtain rfl : after = [] := List.length_eq_zero_iff.mp (by omega)
    exact ⟨[(other, pedersenBase0, pedersenBase1)], pedersenBase2, pedersenBase3, [],
      List.mem_cons_of_mem _ List.mem_cons_self, fun e' => rfl⟩

/-- A hash, of at most two elements, is the `x` of the formula: the shift point, and for every
element the remainder modulo `2 ^ 248` times its first base and the quotient times its second. No
digit is left out: the formula gives another point if any one digit of any element changes. -/
theorem hash?_eq_x_of_formula {elements : List Felt} {h : Felt}
    (hashed : hash? elements = .ok h) :
    ∃ p, formula? shift (elements.zip bases) = .ok p ∧ p.x? = some h.toWord ∧
      ∀ before e after, elements = before ++ e :: after → ∀ e' i, Flips e e' i →
        formula? shift ((before ++ e' :: after).zip bases) ≠ .ok p := by
  obtain ⟨few, x_eq⟩ := hash?_eq_ok hashed
  refine ⟨_, formula?_zip_bases elements, x_eq, ?_⟩
  rintro before e after rfl e' i flips same
  obtain ⟨first, low, high, last, inBases, split⟩ := zip_bases_split few
  rw [formula?_zip_bases, split, split] at same
  have sums := ofGroup_injective (Except.ok.inj same)
  simp only [List.map_append, List.map_cons, List.sum_append, List.sum_cons] at sums
  exact term_ne_of_flips flips inBases
    (add_right_cancel (add_left_cancel (add_left_cancel sums)))

/-- The last element and the one without its highest digit have different formulas. -/
theorem hash?_eq_x_of_formula_highest_digit :
    ∃ h p, hash? [⟨fieldPrime - 1, by decide⟩, ⟨2 ^ 248, by decide⟩] = .ok h ∧
      formula? shift ([⟨fieldPrime - 1, by decide⟩, ⟨2 ^ 248, by decide⟩].zip bases) = .ok p ∧
      p.x? = some h.toWord ∧
      Flips ⟨fieldPrime - 1, by decide⟩ ⟨17 * 2 ^ 192, by decide⟩ 251 ∧
      formula? shift ([⟨17 * 2 ^ 192, by decide⟩, ⟨2 ^ 248, by decide⟩].zip bases) ≠ .ok p := by
  have runs : (runPair? ⟨fieldPrime - 1, by decide⟩ ⟨2 ^ 248, by decide⟩).isSome = true := by
    decide +kernel
  obtain ⟨h, run⟩ := Option.isSome_iff_exists.mp runs
  have hashed := hash?_of_runPair? run
  obtain ⟨p, formula, x_eq, counts⟩ := hash?_eq_x_of_formula hashed
  have flips : Flips ⟨fieldPrime - 1, by decide⟩ ⟨17 * 2 ^ 192, by decide⟩ 251 := by
    rw [Flips]
    decide
  exact ⟨h, p, hashed, formula, x_eq, flips, counts [] _ [⟨2 ^ 248, by decide⟩] rfl _ 251 flips⟩

end Pedersen
end StarkSigning

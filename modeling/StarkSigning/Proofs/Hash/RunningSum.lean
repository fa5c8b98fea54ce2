import StarkSigning.Proofs.Hash.Failure

/-!
# StarkSigning.Proofs.Hash.RunningSum

The Pedersen hash digit by digit. The digits of all elements, each with its constant point, are one
walk from the shift point. Behind every digit the sum is a finite point with reduced coordinates,
and the walk stops only where the sum and the constant point of the next digit have one `x`. So the
hash of at most two elements fails in one way, and a hash of a list, which hashes pairs, in no other.

* `hash?_eq_walk?`: the hash of at most two elements is one walk.
* `walk?_eq_error_iff`: where a walk stops.
* `fold?_eq_error_iff`: a fold fails exactly if one of its pairs does.
* `hash?_fails_by_collision_only`: the failures of all three hashes.
-/

namespace StarkSigning
namespace Pedersen

open Point Curve Outcome

/-- The digits of the elements in the order of the walk, each with its constant point. -/
def steps (elements : List Felt) (rows : List (List Point)) : List (Bool × Point) :=
  (elements.zip rows).flatMap fun item => (lowBits item.1.val elementBits).zip item.2

/-- The sum behind the first `count` digits. -/
def sumBehind? (elements : List Felt) (rows : List (List Point)) (count : Nat) :
    Except Error Point :=
  walk? shift ((steps elements rows).take count)

/-- The sum behind the first `count` digits has the `x` of the constant point of the next digit. -/
def CollidesAt (elements : List Felt) (rows : List (List Point)) (count : Nat) : Prop :=
  ∃ bit p sum, (steps elements rows)[count]? = some (bit, p) ∧
    sumBehind? elements rows count = .ok sum ∧ sum.x? = p.x?

/-! ## One walk -/

theorem absorb?_eq_walk? (sum : Point) (items : List (Felt × List Point)) :
    absorb? sum items =
      walk? sum (items.flatMap fun item => (lowBits item.1.val elementBits).zip item.2) := by
  induction items generalizing sum with
  | nil => rfl
  | cons item rest ih =>
    obtain ⟨e, points⟩ := item
    rw [absorb?, List.flatMap_cons, walk?_append]
    cases walk? sum ((lowBits e.val elementBits).zip points) with
    | error fault => rfl
    | ok next => exact ih next

theorem hash?_eq_walk? {elements : List Felt} {rows : List (List Point)}
    (few : elements.length ≤ maxInputs) (table : table? = .ok rows) :
    hash? elements = walk? shift (steps elements rows) >>= result? := by
  rw [hash?, if_neg (Nat.not_lt_of_le few), table, ok_bind, absorb?_eq_walk?, steps]

/-- The steps of a row, with the points as elements of the group. -/
def rowSteps (item : Felt × Point × Point) : List (Bool × Curve.Group) :=
  (lowBits item.1.val elementBits).zip
    (doublings item.2.1.toGroup lowBitCount ++
      doublings item.2.2.toGroup (elementBits - lowBitCount))

theorem steps_eq_map {elements : List Felt} {rows : List (List Point)}
    (table : table? = .ok rows) :
    steps elements rows =
      ((elements.zip bases).flatMap rowSteps).map (Prod.map id ofGroup) := by
  rw [table?_eq] at table
  cases table
  rw [steps, zip_rows, List.flatMap_map, List.map_flatMap]
  simp only [rowSteps, row, List.zip_map_right]

theorem length_rowSteps (item : Felt × Point × Point) :
    (rowSteps item).length = elementBits := by
  simp [rowSteps, length_lowBits, length_doublings, elementBits, lowBitCount]

theorem length_steps {elements : List Felt} {rows : List (List Point)}
    (few : elements.length ≤ maxInputs) (table : table? = .ok rows) :
    (steps elements rows).length = elements.length * elementBits := by
  have items : (elements.zip bases).length = elements.length := by
    rw [List.length_zip]
    exact Nat.min_eq_left few
  simp [steps_eq_map table, List.length_flatMap, length_rowSteps, items]

theorem hash?_eq_sumBehind? {elements : List Felt} {rows : List (List Point)}
    (few : elements.length ≤ maxInputs) (table : table? = .ok rows) :
    hash? elements = sumBehind? elements rows (elements.length * elementBits) >>= result? := by
  rw [hash?_eq_walk? few table, sumBehind?, ← length_steps few table, List.take_length]

/-! ## Where a walk stops -/

/-- A walk stops at the first sum that has the `x` of its point; the sums before it went on. -/
theorem walk?_eq_error_iff {g : Curve.Group} {items : List (Bool × Curve.Group)} {e : Error} :
    walk? (ofGroup g) (items.map (Prod.map id ofGroup)) = .error e ↔
      e = .point .pedersenCollision ∧ ∃ count bit p sum,
        (items.map (Prod.map id ofGroup))[count]? = some (bit, p) ∧
        walk? (ofGroup g) ((items.map (Prod.map id ofGroup)).take count) = .ok sum ∧
        sum.x? = p.x? := by
  induction items generalizing g with
  | nil =>
    constructor
    · intro h; cases h
    · rintro ⟨-, count, bit, p, sum, here, -⟩
      simp at here
  | cons item rest ih =>
    obtain ⟨bit, b⟩ := item
    rw [List.map_cons, Prod.map_apply, id]
    by_cases x_eq : (ofGroup g).x? = (ofGroup b).x?
    · rw [walk?, if_pos x_eq]
      constructor
      · intro h
        cases h
        exact ⟨rfl, 0, bit, ofGroup b, ofGroup g, rfl, rfl, x_eq⟩
      · rintro ⟨rfl, -⟩
        rfl
    · rw [walk?_cons_ofGroup bit _ x_eq, ih]
      refine and_congr_right fun _ => ?_
      constructor
      · rintro ⟨count, bit', p, sum, here, walked, same⟩
        refine ⟨count + 1, bit', p, sum, here, ?_, same⟩
        rw [List.take_succ_cons, walk?_cons_ofGroup bit _ x_eq]
        exact walked
      · rintro ⟨count, bit', p, sum, here, walked, same⟩
        cases count with
        | zero =>
          -- The walk over no digit ends where it starts, and there the two `x` differ.
          cases here
          cases walked
          exact absurd same x_eq
        | succ count =>
          rw [List.take_succ_cons, walk?_cons_ofGroup bit _ x_eq] at walked
          exact ⟨count, bit', p, sum, here, walked, same⟩

/-- Behind every digit that the walk reaches, the sum is finite and its coordinates are reduced. -/
theorem sumBehind?_outcome {elements : List Felt} {rows : List (List Point)}
    (table : table? = .ok rows) (count : Nat) :
    (∃ x y, sumBehind? elements rows count = .ok (affine x y) ∧
      x.toNat < fieldPrime ∧ y.toNat < fieldPrime) ∨
    ∃ earlier < count, CollidesAt elements rows earlier := by
  let items := (elements.zip bases).flatMap rowSteps
  have cut : sumBehind? elements rows count =
      walk? (ofGroup shiftElement) ((items.take count).map (Prod.map id ofGroup)) := by
    rw [sumBehind?, steps_eq_map table, ofGroup_shiftElement, List.map_take]
  rcases walk?_outcome shiftElement_ne_zero (items.take count) with collides | ⟨g, finite, walked⟩
  · right
    obtain ⟨-, earlier, bit, p, sum, here, walked, same⟩ := walk?_eq_error_iff.mp collides
    rw [List.map_take, ← steps_eq_map table] at here walked
    rw [List.getElem?_take] at here
    split at here
    · rename_i reached
      rw [List.take_take, Nat.min_eq_left (Nat.le_of_lt reached), ofGroup_shiftElement] at walked
      exact ⟨earlier, reached, bit, p, sum, here, walked, same⟩
    · cases here
  · left
    obtain ⟨x, y, point, x_lt, y_lt⟩ := exists_affine_of_ne_zero finite
    exact ⟨x, y, by rw [cut, walked, point], x_lt, y_lt⟩

theorem hash?_eq_error_iff {elements : List Felt} {rows : List (List Point)} {e : Error}
    (few : elements.length ≤ maxInputs) (table : table? = .ok rows) :
    hash? elements = .error e ↔
      e = .point .pedersenCollision ∧ ∃ count, CollidesAt elements rows count := by
  have stops : walk? shift (steps elements rows) = .error e ↔
      e = .point .pedersenCollision ∧ ∃ count, CollidesAt elements rows count := by
    rw [← ofGroup_shiftElement, steps_eq_map table, walk?_eq_error_iff]
    simp only [CollidesAt, sumBehind?, steps_eq_map table, ofGroup_shiftElement]
  rw [← stops, hash?_eq_walk? few table, bind_eq_error_iff]
  constructor
  · rintro (stopped | ⟨sum, walked, written⟩)
    · exact stopped
    · -- A walk that gets through ends in a finite sum, whose `x` is an element.
      rw [← ofGroup_shiftElement, steps_eq_map table] at walked
      rcases walk?_outcome shiftElement_ne_zero ((elements.zip bases).flatMap rowSteps) with
        collides | ⟨g, finite, ends⟩
      · rw [collides] at walked
        cases walked
      · rw [ends] at walked
        cases walked
        obtain ⟨h, result⟩ := exists_result?_eq_ok finite
        rw [result] at written
        cases written
  · exact Or.inl

/-- More elements than two are refused, and nothing else is out of range. -/
theorem exists_outOfRange_iff (elements : List Felt) :
    (∃ e, hash? elements = .error e ∧ e.kind = .outOfRange) ↔ maxInputs < elements.length := by
  constructor
  · rintro ⟨e, fails, kind⟩
    by_contra few
    rw [hash?_eq_error_iff (Nat.le_of_not_lt few) table?_eq] at fails
    rw [fails.1] at kind
    cases kind
  · intro many
    refine ⟨.outOfRange .pedersenInputCount elements.length, ?_, rfl⟩
    rw [hash?, if_pos many]

/-! ## Lists -/

/-- The elements that the hash of a list folds; the empty list counts as the list of one zero. -/
def listed (elements : List Felt) : List Felt :=
  if elements = [] then [Felt.zero] else elements

theorem hashList?_eq_fold? (elements : List Felt) :
    hashList? elements = fold? Felt.zero (listed elements) := by
  cases elements with
  | nil =>
    rw [listed, if_pos rfl, hashList?, fold?]
    cases hash? [Felt.zero, Felt.zero] with
    | error e => rfl
    | ok h => rfl
  | cons e rest =>
    have nonempty := List.cons_ne_nil e rest
    rw [listed, if_neg nonempty, hashList?_of_ne_nil nonempty]

theorem exists_hash?_of_mem_foldPairs {start h : Felt} {elements : List Felt}
    (folded : fold? start elements = .ok h) :
    ∀ pair ∈ foldPairs start elements, ∃ d, hash? [pair.1, pair.2] = .ok d := by
  induction elements generalizing start with
  | nil =>
    intro pair member
    cases member
  | cons e rest ih =>
    obtain ⟨next, head, tail⟩ := fold?_cons_eq_ok_iff.mp folded
    rw [foldPairs_cons head, List.forall_mem_cons]
    exact ⟨⟨next, head⟩, ih tail⟩

theorem fold?_eq_error_iff {start : Felt} {elements : List Felt} {rows : List (List Point)}
    {e : Error} (table : table? = .ok rows) :
    fold? start elements = .error e ↔ e = .point .pedersenCollision ∧
      ∃ pair ∈ foldPairs start elements, ∃ count, CollidesAt [pair.1, pair.2] rows count := by
  have pairFails : ∀ pair : Felt × Felt,
      hash? [pair.1, pair.2] = .error (.point .pedersenCollision) ↔
        ∃ count, CollidesAt [pair.1, pair.2] rows count := by
    intro pair
    have few : [pair.1, pair.2].length ≤ maxInputs := Nat.le_refl 2
    rw [hash?_eq_error_iff few table, eq_self, true_and]
  simp only [← pairFails]
  rcases fold?_outcome start elements with ⟨fails, pair, member, collides⟩ | ⟨h, folded⟩
  · rw [fails, Except.error.injEq]
    constructor
    · rintro rfl
      exact ⟨rfl, pair, member, collides⟩
    · rintro ⟨rfl, -⟩
      rfl
  · rw [folded]
    constructor
    · intro h; cases h
    · rintro ⟨-, pair, member, collides⟩
      obtain ⟨d, hashed⟩ := exists_hash?_of_mem_foldPairs folded pair member
      rw [collides] at hashed
      cases hashed

/-- The table always exists. A hash is out of range exactly for more than two elements. For at most
two it is read off the sum behind 252 digits of each. The sum behind every digit that is reached is a
finite point with reduced coordinates, so the sum is never found infinite; the only failure is the
collision of a sum with the constant point of the next digit, reported exactly where there is one. A
hash of a list, with or without its length, fails exactly by such a collision in a pair that it
hashes. -/
theorem hash?_fails_by_collision_only (elements : List Felt) :
    ∃ rows, table? = .ok rows ∧
      ((∃ e, hash? elements = .error e ∧ e.kind = .outOfRange) ↔ maxInputs < elements.length) ∧
      (elements.length ≤ maxInputs →
        (steps elements rows).length = elements.length * elementBits ∧
        hash? elements = sumBehind? elements rows (elements.length * elementBits) >>= result? ∧
        (∀ count, (∃ x y, sumBehind? elements rows count = .ok (affine x y) ∧
            x.toNat < fieldPrime ∧ y.toNat < fieldPrime) ∨
          ∃ earlier < count, CollidesAt elements rows earlier) ∧
        ∀ e, hash? elements = .error e ↔
          e = .point .pedersenCollision ∧ ∃ count, CollidesAt elements rows count) ∧
      (∀ e, hashList? elements = .error e ↔ e = .point .pedersenCollision ∧
        ∃ pair ∈ foldPairs Felt.zero (listed elements),
          ∃ count, CollidesAt [pair.1, pair.2] rows count) ∧
      ∀ e, hashWithLength? elements = .error e ↔ e = .point .pedersenCollision ∧
        ∃ pair ∈ hashedPairs elements, ∃ count, CollidesAt [pair.1, pair.2] rows count := by
  refine ⟨_, table?_eq, exists_outOfRange_iff elements, ?_, ?_, ?_⟩
  · intro few
    exact ⟨length_steps few table?_eq, hash?_eq_sumBehind? few table?_eq,
      sumBehind?_outcome table?_eq, fun e => hash?_eq_error_iff few table?_eq⟩
  · intro e
    rw [hashList?_eq_fold?, fold?_eq_error_iff table?_eq]
  · intro e
    rw [hashWithLength?_eq_fold?, fold?_eq_error_iff table?_eq, hashedPairs]

/-- Two elements whose digits are all walked, up to the last sum; three are refused. -/
theorem hash?_fails_by_collision_only_all_digits :
    let elements : List Felt := [⟨fieldPrime - 1, by decide⟩, ⟨2 ^ 248, by decide⟩]
    (∃ rows x y, table? = .ok rows ∧ (∀ count, ¬ CollidesAt elements rows count) ∧
      sumBehind? elements rows (2 * elementBits) = .ok (affine x y) ∧
      x.toNat < fieldPrime ∧ y.toNat < fieldPrime) ∧
    ∃ e, hash? (Felt.one :: elements) = .error e ∧ e.kind = .outOfRange := by
  intro elements
  have runs : (runPair? ⟨fieldPrime - 1, by decide⟩ ⟨2 ^ 248, by decide⟩).isSome = true := by
    decide +kernel
  obtain ⟨h, run⟩ := Option.isSome_iff_exists.mp runs
  have hashed : hash? elements = .ok h := hash?_of_runPair? run
  obtain ⟨rows, table, -, atMostTwo, -⟩ := hash?_fails_by_collision_only elements
  obtain ⟨-, -, sums, fails⟩ := atMostTwo (Nat.le_refl 2)
  have apart : ∀ count, ¬ CollidesAt elements rows count := by
    intro count collides
    have failed := (fails _).mpr ⟨rfl, count, collides⟩
    rw [hashed] at failed
    cases failed
  obtain ⟨-, -, tooMany, -⟩ := hash?_fails_by_collision_only (Felt.one :: elements)
  refine ⟨?_, tooMany.mpr (by decide)⟩
  rcases sums (2 * elementBits) with ⟨x, y, walked, bounds⟩ | ⟨earlier, -, collides⟩
  · exact ⟨rows, x, y, table, apart, walked, bounds⟩
  · exact absurd collides (apart earlier)

end Pedersen
end StarkSigning

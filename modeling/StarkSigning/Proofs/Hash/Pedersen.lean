import StarkSigning.Hash.Pedersen
import StarkSigning.Proofs.Curve.Generator
import StarkSigning.Proofs.Outcome

/-!
# StarkSigning.Proofs.Hash.Pedersen

The Pedersen hash in the group. A row holds the doublings of its two bases, so that walking the
digits of an element along it is a ladder of the circuit by the low digits of the element and
another by the high ones. Run on weighted points the ladders give the hash without the table,
which is how the hash of fixed elements is found.

* `table?_eq`: the table, with the doublings of the four bases.
* `walk?_row`: an element is walked along its row by two ladders.
* `hash?_of_runPair?`, `hashWithLength?_of_runWithLength?`: hashes by runs of weighted points.
-/

namespace StarkSigning
namespace Pedersen

open Point Curve Outcome

/-- The doublings of an element of the group, `count` elements in all. -/
def doublings (g : Curve.Group) : Nat → List Curve.Group
  | 0 => []
  | count + 1 => g :: doublings (g + g) count

/-- The points of a row whose bases are these points. -/
def row (low high : Point) : List Point :=
  (doublings low.toGroup lowBitCount ++
    doublings high.toGroup (elementBits - lowBitCount)).map ofGroup

/-- A finite point of the curve with reduced coordinates. -/
def Valid (p : Point) : Prop :=
  ofGroup p.toGroup = p ∧ p.isInfinity = false

theorem doublings?_ofGroup (g : Curve.Group) (count : Nat) :
    doublings? (ofGroup g) count = .ok ((doublings g count).map ofGroup) := by
  induction count generalizing g with
  | zero => rfl
  | succ count ih =>
    rw [doublings?, double?_ofGroup]
    dsimp only
    rw [ih, doublings, List.map_cons]

theorem valid_pedersenBase0 : Valid pedersenBase0 :=
  ⟨ofGroup_toGroup ⟨by decide, by decide⟩ rfl, rfl⟩

theorem valid_pedersenBase1 : Valid pedersenBase1 :=
  ⟨ofGroup_toGroup ⟨by decide, by decide⟩ rfl, rfl⟩

theorem valid_pedersenBase2 : Valid pedersenBase2 :=
  ⟨ofGroup_toGroup ⟨by decide, by decide⟩ rfl, rfl⟩

theorem valid_pedersenBase3 : Valid pedersenBase3 :=
  ⟨ofGroup_toGroup ⟨by decide, by decide⟩ rfl, rfl⟩

theorem row?_eq {low high : Point} (hl : Valid low) (hh : Valid high) :
    row? low high = .ok (row low high) := by
  rw [row?, ← hl.1, ← hh.1, doublings?_ofGroup, doublings?_ofGroup, hl.1, hh.1, row,
    List.map_append]

theorem table?_eq :
    table? = .ok [row pedersenBase0 pedersenBase1, row pedersenBase2 pedersenBase3] := by
  rw [table?, row?_eq valid_pedersenBase0 valid_pedersenBase1, ok_bind,
    row?_eq valid_pedersenBase2 valid_pedersenBase3, ok_bind]
  rfl

theorem lowBits_add (n first second : Nat) :
    lowBits n (first + second) = lowBits n first ++ lowBits (n / 2 ^ first) second := by
  induction first generalizing n with
  | zero => rw [Nat.zero_add, Nat.pow_zero, Nat.div_one]; rfl
  | succ first ih =>
    rw [Nat.succ_add, lowBits, lowBits, ih, Nat.div_div_eq_div_mul, ← Nat.pow_succ',
      List.cons_append]

theorem walk?_append (sum : Point) (first second : List (Bool × Point)) :
    walk? sum (first ++ second) = walk? sum first >>= fun next => walk? next second := by
  induction first generalizing sum with
  | nil => rfl
  | cons step rest ih =>
    obtain ⟨bit, p⟩ := step
    rw [List.cons_append, walk?, walk?]
    split
    · rfl
    · split
      · cases sum.add? p with
        | error e => rfl
        | ok next => exact ih next
      · exact ih sum

theorem walk?_cons_ofGroup {g b : Curve.Group} (bit : Bool) (rest : List (Bool × Point))
    (x_ne : (ofGroup g).x? ≠ (ofGroup b).x?) :
    walk? (ofGroup g) ((bit, ofGroup b) :: rest) = walk? (ofGroup (g + bit.toNat • b)) rest := by
  rw [walk?, if_neg x_ne]
  cases bit with
  | false => rw [if_neg Bool.false_ne_true, Bool.toNat_false, zero_nsmul, add_zero]
  | true => rw [if_pos rfl, add?_ofGroup, Bool.toNat_true, one_nsmul]

theorem length_doublings (g : Curve.Group) (count : Nat) : (doublings g count).length = count := by
  induction count generalizing g with
  | zero => rfl
  | succ count ih => rw [doublings, List.length_cons, ih]

/-- Where a ladder of the circuit runs, so does the walk along the doublings of its base. -/
theorem walk?_of_circuitLadder? {g b : Curve.Group} {bits : List Bool} {p : Point}
    (h : circuitLadder? (ofGroup g) (ofGroup b) bits = .ok p) :
    walk? (ofGroup g) (bits.zip ((doublings b bits.length).map ofGroup)) = .ok p := by
  induction bits generalizing g b with
  | nil => exact h
  | cons bit rest ih =>
    rw [circuitLadder?_ofGroup_cons] at h
    split at h
    · rename_i apart
      rw [List.length_cons, doublings, List.map_cons, List.zip_cons_cons,
        walk?_cons_ofGroup _ _ (apart_eq_true_iff.mp apart).2.2]
      exact ih h
    · cases h

/-- The digits of an element on its row: the low ones on the doublings of the first base, the
others on those of the second. -/
theorem zip_row (e : Nat) (low high : Point) :
    (lowBits e elementBits).zip (row low high) =
      (lowBits e lowBitCount).zip ((doublings low.toGroup lowBitCount).map ofGroup) ++
        (lowBits (e / 2 ^ lowBitCount) (elementBits - lowBitCount)).zip
          ((doublings high.toGroup (elementBits - lowBitCount)).map ofGroup) := by
  have digits : elementBits = lowBitCount + (elementBits - lowBitCount) := rfl
  rw [row, List.map_append, digits, lowBits_add, List.zip_append]
  · rfl
  · rw [length_lowBits, List.length_map, length_doublings]

/-- One element is walked along its row by two ladders, over its low and its high digits. -/
theorem walk?_row {g : Curve.Group} {low high last : Point} {e : Nat}
    (hl : Valid low) (hh : Valid high) {g' : Curve.Group}
    (first : circuitLadder? (ofGroup g) low (lowBits e lowBitCount) = .ok (ofGroup g'))
    (second : circuitLadder? (ofGroup g') high
      (lowBits (e / 2 ^ lowBitCount) (elementBits - lowBitCount)) = .ok last) :
    walk? (ofGroup g) ((lowBits e elementBits).zip (row low high)) = .ok last := by
  rw [← hl.1] at first
  rw [← hh.1] at second
  have walked := walk?_of_circuitLadder? first
  have walked' := walk?_of_circuitLadder? second
  rw [length_lowBits] at walked walked'
  rw [zip_row, walk?_append, walked, ok_bind]
  exact walked'

/-! ## Folds -/

theorem fold?_cons_eq_ok_iff {start e d : Felt} {rest : List Felt} :
    fold? start (e :: rest) = .ok d ↔ ∃ next, hash? [start, e] = .ok next ∧
      fold? next rest = .ok d := by
  rw [fold?, bind_eq_ok_iff]

theorem fold?_concat_eq_ok_iff {start e d : Felt} {elements : List Felt} :
    fold? start (elements ++ [e]) = .ok d ↔ ∃ sum, fold? start elements = .ok sum ∧
      hash? [sum, e] = .ok d := by
  induction elements generalizing start with
  | nil =>
    rw [List.nil_append, fold?_cons_eq_ok_iff]
    constructor
    · rintro ⟨next, h, result⟩; cases result; exact ⟨start, rfl, h⟩
    · rintro ⟨sum, result, h⟩; cases result; exact ⟨d, h, rfl⟩
  | cons first rest ih =>
    rw [List.cons_append, fold?_cons_eq_ok_iff]
    constructor
    · rintro ⟨next, head, tail⟩
      obtain ⟨sum, tail, last⟩ := ih.mp tail
      exact ⟨sum, fold?_cons_eq_ok_iff.mpr ⟨next, head, tail⟩, last⟩
    · rintro ⟨sum, h, last⟩
      obtain ⟨next, head, tail⟩ := fold?_cons_eq_ok_iff.mp h
      exact ⟨next, head, ih.mpr ⟨sum, tail, last⟩⟩

theorem hashList?_of_ne_nil {elements : List Felt} (h : elements ≠ []) :
    hashList? elements = fold? Felt.zero elements := by
  cases elements with
  | nil => exact absurd rfl h
  | cons e rest =>
    rw [hashList?]
    exact h

theorem hashWithLength?_eq_fold? (elements : List Felt) :
    hashWithLength? elements = fold? Felt.zero (elements ++ [Felt.ofLength elements]) :=
  hashList?_of_ne_nil (List.append_ne_nil_of_right_ne_nil _ (List.cons_ne_nil _ _))

theorem hashWithLength?_eq_ok_iff {elements : List Felt} {h : Felt} :
    hashWithLength? elements = .ok h ↔ ∃ sum, fold? Felt.zero elements = .ok sum ∧
      hash? [sum, Felt.ofLength elements] = .ok h := by
  rw [hashWithLength?_eq_fold?, fold?_concat_eq_ok_iff]

/-! ## Runs on weighted points -/

/-- The sum of a point and one element on its two bases. -/
def runElement? (sum low high : Weighted) (e : Felt) : Option Weighted :=
  (sum.ladder? low (lowBits e.val lowBitCount)).bind fun middle =>
    middle.ladder? high (lowBits (e.val / 2 ^ lowBitCount) (elementBits - lowBitCount))

/-- The hash of two elements by ladders on weighted points. -/
def runPair? (e f : Felt) : Option Felt :=
  (runElement? (.ofPoint shift) (.ofPoint pedersenBase0) (.ofPoint pedersenBase1) e).bind
    fun sum =>
      (runElement? sum (.ofPoint pedersenBase2) (.ofPoint pedersenBase3) f).bind fun last =>
        (last.x? >>= Word.toFelt?).toOption

def runFold? (start : Felt) : List Felt → Option Felt
  | [] => some start
  | e :: rest => (runPair? start e).bind fun next => runFold? next rest

def runWithLength? (elements : List Felt) : Option Felt :=
  runFold? Felt.zero (elements ++ [Felt.ofLength elements])

theorem walk?_of_runElement? {sum last : Weighted} {g : Curve.Group} {low high : Point} {e : Felt}
    (hs : Weighted.Represents sum g) (hl : Valid low) (hh : Valid high)
    (run : runElement? sum (.ofPoint low) (.ofPoint high) e = some last) :
    ∃ g', Weighted.Represents last g' ∧
      walk? (ofGroup g) ((lowBits e.val elementBits).zip (row low high)) = .ok (ofGroup g') := by
  obtain ⟨middle, first, second⟩ := Option.bind_eq_some_iff.mp run
  obtain ⟨hm, ladder⟩ := hs.ladder (Weighted.represents_ofPoint hl.1 hl.2) first
  obtain ⟨hlast, ladder'⟩ := hm.ladder (Weighted.represents_ofPoint hh.1 hh.2) second
  rw [hl.1] at ladder
  rw [hh.1] at ladder'
  exact ⟨_, hlast, walk?_row hl hh ladder ladder'⟩

theorem hash?_of_runPair? {e f h : Felt} (run : runPair? e f = some h) :
    hash? [e, f] = .ok h := by
  obtain ⟨sum, first, rest⟩ := Option.bind_eq_some_iff.mp run
  obtain ⟨last, second, written⟩ := Option.bind_eq_some_iff.mp rest
  obtain ⟨g, hg, walked⟩ :=
    walk?_of_runElement? represents_shift valid_pedersenBase0 valid_pedersenBase1 first
  obtain ⟨g', hg', walked'⟩ :=
    walk?_of_runElement? hg valid_pedersenBase2 valid_pedersenBase3 second
  obtain ⟨x, found, felt⟩ := bind_eq_ok_iff.mp (eq_ok_of_toOption written)
  have absorbed : absorb? shift ([e, f].zip
      [row pedersenBase0 pedersenBase1, row pedersenBase2 pedersenBase3]) = .ok (ofGroup g') := by
    rw [← ofGroup_shiftElement]
    simp only [List.zip_cons_cons, List.zip_nil_left, absorb?, walked, walked']
  have result : result? (ofGroup g') = .ok h := by
    have x_eq := hg'.x?_eq found
    cases point : ofGroup g' with
    | infinity =>
      rw [point] at x_eq
      cases x_eq
    | affine x' y =>
      rw [point] at x_eq
      cases x_eq
      exact felt
  rw [hash?, if_neg (by simp [maxInputs]), table?_eq, ok_bind, absorbed, ok_bind, result]

theorem fold?_of_runFold? {start h : Felt} {elements : List Felt}
    (run : runFold? start elements = some h) : fold? start elements = .ok h := by
  induction elements generalizing start with
  | nil => cases run; rfl
  | cons e rest ih =>
    obtain ⟨next, pair, tail⟩ := Option.bind_eq_some_iff.mp run
    exact fold?_cons_eq_ok_iff.mpr ⟨next, hash?_of_runPair? pair, ih tail⟩

theorem hashWithLength?_of_runWithLength? {elements : List Felt} {h : Felt}
    (run : runWithLength? elements = some h) : hashWithLength? elements = .ok h := by
  rw [hashWithLength?_eq_fold?]
  exact fold?_of_runFold? run

end Pedersen
end StarkSigning

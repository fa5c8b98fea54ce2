import Mathlib.Combinatorics.Pigeonhole
import StarkSigning.Signing.Nonce

/-!
# StarkSigning.Proofs.Signing.NonceSearch

The bounded search for a nonce is the unbounded one. A generator is two byte strings of 32 bytes,
so among more than `generatorCount` consecutive generators two are equal, and the output runs in a
cycle from the first of them on. The first accepted candidate, if there is one, therefore stands
among the first `generatorCount`.

* `Bytes.eq_of_number_eq`: byte strings of one length and one number.
* `search?_eq_some_iff`: a search finds the first accepted candidate among so many.
* `FirstAccepted.lt_generatorCount`: there the first of all candidates is found.
* `search?_generatorCount_eq_some_iff`: so the search has no bound.
-/

namespace StarkSigning

namespace Bytes

theorem ofNumber_number (bytes : List UInt8) : ofNumber bytes.length (number bytes) = bytes := by
  induction bytes using List.reverseRecOn with
  | nil => rfl
  | append_singleton bytes byte ih =>
    have small := byte.toNat_lt
    have quotient : (256 * number bytes + byte.toNat) / 256 = number bytes := by omega
    have remainder : (256 * number bytes + byte.toNat) % 256 = byte.toNat := by omega
    rw [List.length_append, List.length_singleton, ofNumber, number_append_singleton, quotient,
      remainder, ih, UInt8.ofNat_toNat]

theorem eq_of_number_eq {a b : List UInt8} (length : a.length = b.length)
    (h : number a = number b) : a = b := by
  rw [← ofNumber_number a, ← ofNumber_number b, length, h]

end Bytes

namespace Nonce

namespace Generator

/-- Both strings have 32 bytes. -/
structure Sized (g : Generator) : Prop where
  key : g.key.length = 32
  value : g.value.length = 32

theorem sized_advance (g : Generator) : g.advance.Sized :=
  ⟨Hmac.length_hash _ _, Hmac.length_hash _ _⟩

theorem sized_seed (material : List UInt8) : (seed material).Sized :=
  ⟨Hmac.length_hash _ _, Hmac.length_hash _ _⟩

theorem Sized.iterate {g : Generator} (sized : g.Sized) (n : Nat) : (advance^[n] g).Sized := by
  cases n with
  | zero => exact sized
  | succ n =>
    rw [Function.iterate_succ_apply']
    exact sized_advance _

/-- The two strings together as one number. -/
def code (g : Generator) : Nat :=
  Bytes.number (g.key ++ g.value)

theorem Sized.code_lt {g : Generator} (sized : g.Sized) : g.code < generatorCount := by
  have below := Bytes.number_lt (g.key ++ g.value)
  rw [List.length_append, sized.key, sized.value] at below
  exact Nat.lt_of_lt_of_eq below (by decide +kernel)

theorem Sized.eq_of_code_eq {g h : Generator} (hg : g.Sized) (hh : h.Sized)
    (same : g.code = h.code) : g = h := by
  have length : (g.key ++ g.value).length = (h.key ++ h.value).length := by
    simp [hg.key, hg.value, hh.key, hh.value]
  have keys : g.key.length = h.key.length := by rw [hg.key, hh.key]
  obtain ⟨key, value⟩ := List.append_inj (Bytes.eq_of_number_eq length same) keys
  cases g
  cases h
  cases key
  cases value
  rfl

end Generator

open Generator

/-- Candidate number `i` of the output. -/
def candidateAt (g : Generator) (i : Nat) : Word :=
  candidate (advance^[i] g).block

/-- Candidate number `n` is accepted, and no earlier one is. -/
def FirstAccepted (g : Generator) (n : Nat) (k : Word) : Prop :=
  candidateAt g n = k ∧ accepts k = true ∧ ∀ i < n, accepts (candidateAt g i) = false

theorem candidateAt_zero (g : Generator) : candidateAt g 0 = candidate g.block := rfl

/-- A first candidate that is accepted is the first accepted one. -/
theorem firstAccepted_iff_of_accepts {g : Generator} {n : Nat} {k : Word}
    (here : accepts (candidate g.block) = true) :
    FirstAccepted g n k ↔ n = 0 ∧ k = candidate g.block := by
  constructor
  · rintro ⟨rfl, -, earlier⟩
    cases n with
    | zero => exact ⟨rfl, rfl⟩
    | succ n =>
      have rejected := earlier 0 (Nat.succ_pos n)
      rw [candidateAt_zero, here] at rejected
      cases rejected
  · rintro ⟨rfl, rfl⟩
    exact ⟨rfl, here, fun i lt => absurd lt (Nat.not_lt_zero i)⟩

/-- A first candidate that is not accepted is left out. -/
theorem firstAccepted_iff_of_rejects {g : Generator} {n : Nat} {k : Word}
    (here : accepts (candidate g.block) = false) :
    FirstAccepted g n k ↔ ∃ m, n = m + 1 ∧ FirstAccepted g.advance m k := by
  constructor
  · rintro ⟨rfl, accepted, earlier⟩
    cases n with
    | zero =>
      rw [candidateAt_zero, here] at accepted
      cases accepted
    | succ m => exact ⟨m, rfl, rfl, accepted, fun i lt => earlier (i + 1) (Nat.succ_lt_succ lt)⟩
  · rintro ⟨m, rfl, found, accepted, earlier⟩
    refine ⟨found, accepted, ?_⟩
    intro i lt
    cases i with
    | zero => exact here
    | succ i => exact earlier i (Nat.lt_of_succ_lt_succ lt)

theorem search?_eq_some_iff {left : Nat} {g : Generator} {k : Word} :
    search? left g = some k ↔ ∃ n < left, FirstAccepted g n k := by
  induction left generalizing g with
  | zero => simp [search?]
  | succ left ih =>
    rw [search?]
    cases here : accepts (candidate g.block) with
    | true =>
      simp only [if_true, Option.some.injEq, firstAccepted_iff_of_accepts here]
      constructor
      · intro found
        exact ⟨0, Nat.succ_pos left, rfl, found.symm⟩
      · rintro ⟨n, -, -, found⟩
        exact found.symm
    | false =>
      simp only [Bool.false_eq_true, if_false, ih, firstAccepted_iff_of_rejects here]
      constructor
      · rintro ⟨m, lt, found⟩
        exact ⟨m + 1, Nat.succ_lt_succ lt, m, rfl, found⟩
      · rintro ⟨n, lt, m, rfl, found⟩
        exact ⟨m, Nat.lt_of_succ_lt_succ lt, found⟩

/-- Among more than `generatorCount` consecutive generators two are equal. -/
theorem exists_repeat {g : Generator} (sized : g.Sized) {n : Nat} (many : generatorCount ≤ n) :
    ∃ i j, i < j ∧ j ≤ n ∧ advance^[i] g = advance^[j] g := by
  have fewer : (Finset.range generatorCount).card < (Finset.range (n + 1)).card := by
    rw [Finset.card_range, Finset.card_range]
    exact Nat.lt_succ_of_le many
  obtain ⟨i, hi, j, hj, distinct, same⟩ :=
    Finset.exists_ne_map_eq_of_card_lt_of_maps_to fewer
      (fun i _ => Finset.mem_coe.mpr (Finset.mem_range.mpr (sized.iterate i).code_lt))
  have equal := (sized.iterate i).eq_of_code_eq (sized.iterate j) same
  rw [Finset.mem_range] at hi hj
  rcases Nat.lt_or_gt_of_ne distinct with lt | gt
  · exact ⟨i, j, lt, Nat.le_of_lt_succ hj, equal⟩
  · exact ⟨j, i, gt, Nat.le_of_lt_succ hi, equal.symm⟩

theorem FirstAccepted.lt_generatorCount {g : Generator} (sized : g.Sized) {n : Nat} {k : Word}
    (first : FirstAccepted g n k) : n < generatorCount := by
  by_contra many
  obtain ⟨found, accepted, earlier⟩ := first
  obtain ⟨i, j, lt, le, same⟩ := exists_repeat sized (Nat.le_of_not_lt many)
  -- The cycle takes the accepted candidate back to an earlier place.
  have back : candidateAt g (n - j + i) = k := by
    rw [candidateAt, Function.iterate_add_apply, same, ← Function.iterate_add_apply,
      Nat.sub_add_cancel le]
    exact found
  have rejected := earlier (n - j + i) (by omega)
  rw [back, accepted] at rejected
  cases rejected

theorem search?_generatorCount_eq_some_iff {g : Generator} (sized : g.Sized) {k : Word} :
    search? generatorCount g = some k ↔ ∃ n, FirstAccepted g n k := by
  rw [search?_eq_some_iff]
  constructor
  · rintro ⟨n, -, first⟩
    exact ⟨n, first⟩
  · rintro ⟨n, first⟩
    exact ⟨n, first.lt_generatorCount sized, first⟩

end Nonce
end StarkSigning

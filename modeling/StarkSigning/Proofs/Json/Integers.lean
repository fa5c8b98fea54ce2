import StarkSigning.Json.Number
import StarkSigning.Proofs.Text.Positional

/-!
# StarkSigning.Proofs.Json.Integers

The integers among the numbers of JSON texts. A number is told apart by how it is written: the
decimal numeral of an integer of 64 bits is read as that integer, while a sign, a point or an
exponent leads to a number of another kind, whatever its value is.

* `read?_toDigits`: numerals of 64 bits are read exactly.
* `isUnsigned_iff`: the numbers that they are read as.
-/

namespace StarkSigning
namespace Json
namespace Number

/-- What the decimal numeral of the integer, one of 64 bits without a sign, is read as. -/
structure IsUnsigned (x : Number) (n : Nat) : Prop where
  lt_size : n < UInt64.size
  read : read? (Nat.toDigits 10 n) = some x

theorem literal?_of_isWhole {digits : List Char} (whole : isWhole digits = true)
    (each : ∀ c ∈ digits, c.isDigit = true) :
    literal? digits = some ⟨false, digits, none, none⟩ := by
  have unsigned : digits.head? ≠ some '-' := by
    intro sign
    exact absurd (each '-' (List.mem_of_mem_head? sign)) (by decide)
  have taken : digits.takeWhile Char.isDigit = digits := List.takeWhile_eq_self_iff.mpr each
  have behind : digits.dropWhile Char.isDigit = [] := List.dropWhile_eq_nil_iff.mpr each
  simp [literal?, unsigned, taken, behind, whole]

theorem head?_toDigits {n : Nat} (positive : 0 < n) : (Nat.toDigits 10 n).head? ≠ some '0' := by
  induction n using Nat.strongRecOn with
  | ind n ih =>
    rw [Nat.toDigits_eq_if (by decide)]
    split
    · rename_i small
      have nonzero : ∀ d < 10, 0 < d → d.digitChar ≠ '0' := by decide
      rw [List.head?_cons, Ne, Option.some.injEq]
      exact nonzero n small positive
    · have front := ih (n / 10) (by omega) (by omega)
      have nonempty : Nat.toDigits 10 (n / 10) ≠ [] := Nat.toDigits_ne_nil
      rwa [List.head?_append, Option.or_of_isSome (List.isSome_head?.mpr nonempty)]

theorem isWhole_toDigits (n : Nat) : isWhole (Nat.toDigits 10 n) = true := by
  rcases Nat.eq_zero_or_pos n with rfl | positive
  · rfl
  · have nonempty : Nat.toDigits 10 n ≠ [] := Nat.toDigits_ne_nil
    simp [isWhole, nonempty, head?_toDigits positive]

/-- One step of `ofWhole`. -/
def appendDigit (s : Scaled) (c : Char) : Scaled :=
  let next := 10 * s.significand + digitValue c
  if 0 < s.exponent ∨ UInt64.size ≤ next then ⟨s.significand, s.exponent + 1⟩ else ⟨next, 0⟩

theorem appendDigit_of_lt {value d : Nat} {c : Char} (digit : Text.IsDigit 10 c d)
    (fits : value * 10 + d < UInt64.size) : appendDigit ⟨value, 0⟩ c = ⟨value * 10 + d, 0⟩ := by
  have read : digitValue c = d := by
    rw [digit.eq_digitChar]
    exact Nat.toNat_digitChar_sub_48_of_lt_ten digit.lt_base
  have kept : ¬((0 : Int) < 0 ∨ UInt64.size ≤ value * 10 + d) := by omega
  rw [appendDigit, read, Nat.mul_comm]
  exact if_neg kept

/-- As long as the number fits, its digits are kept. -/
theorem foldl_appendDigit {digits : List Char} {n : Nat} (numeral : Text.Numeral 10 digits n)
    (start : Nat) (fits : start * Nat.pow 10 digits.length + n < UInt64.size) :
    digits.foldl appendDigit ⟨start, 0⟩ = ⟨start * Nat.pow 10 digits.length + n, 0⟩ := by
  induction numeral generalizing start with
  | digit digit =>
    rw [List.length_singleton, Nat.pow_eq, Nat.pow_one] at fits ⊢
    rw [List.foldl_cons, List.foldl_nil, appendDigit_of_lt digit fits]
  | @cons c d rest n digit _ ih =>
    have place : start * Nat.pow 10 (rest.length + 1) + (d * Nat.pow 10 rest.length + n) =
        (start * 10 + d) * Nat.pow 10 rest.length + n := by
      rw [Nat.pow_eq, Nat.pow_eq, Nat.pow_succ, Nat.add_mul, Nat.mul_assoc, Nat.mul_comm 10,
        Nat.add_assoc]
    rw [List.length_cons, place] at fits ⊢
    have first : start * 10 + d < UInt64.size := by
      have positive : 0 < Nat.pow 10 rest.length := Nat.pow_pos (by decide)
      exact Nat.lt_of_le_of_lt
        (Nat.le_trans (Nat.le_mul_of_pos_right _ positive) (Nat.le_add_right _ n)) fits
    rw [List.foldl_cons, appendDigit_of_lt digit first, ih _ fits]

theorem ofWhole_toDigits {n : Nat} (fits : n < UInt64.size) :
    ofWhole (Nat.toDigits 10 n) = ⟨n, 0⟩ := by
  have folded := foldl_appendDigit (Text.numeral_toDigits n) 0 (by simpa using fits)
  rw [Nat.zero_mul, Nat.zero_add] at folded
  exact folded

theorem read?_toDigits {n : Nat} (fits : n < UInt64.size) :
    read? (Nat.toDigits 10 n) = some (natural (UInt64.ofNat n)) := by
  have digits : ∀ c ∈ Nat.toDigits 10 n, c.isDigit = true := by
    intro c member
    exact Nat.isDigit_of_mem_toDigits (by decide) (by decide) member
  rw [read?, literal?_of_isWhole (isWhole_toDigits n) digits, Option.bind_some, ofLiteral?]
  simp [ofWhole_toDigits fits]

theorem isUnsigned_iff {x : Number} {n : Nat} :
    x.IsUnsigned n ↔ ∃ u : UInt64, x = natural u ∧ u.toNat = n := by
  constructor
  · rintro ⟨fits, read⟩
    rw [read?_toDigits fits, Option.some.injEq] at read
    exact ⟨UInt64.ofNat n, read.symm, UInt64.toNat_ofNat_of_lt' fits⟩
  · rintro ⟨u, rfl, rfl⟩
    refine ⟨u.toNat_lt, ?_⟩
    rw [read?_toDigits u.toNat_lt, UInt64.ofNat_toNat]

theorem IsUnsigned.unique {x : Number} {n m : Nat} (h : x.IsUnsigned n) (h' : x.IsUnsigned m) :
    n = m := by
  obtain ⟨u, rfl, rfl⟩ := isUnsigned_iff.mp h
  obtain ⟨u', same, rfl⟩ := isUnsigned_iff.mp h'
  cases same
  rfl

end Number
end Json
end StarkSigning

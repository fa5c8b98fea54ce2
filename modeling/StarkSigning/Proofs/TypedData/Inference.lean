import Mathlib.Data.Nat.Digits.Defs
import StarkSigning.Proofs.Felt.Grammar
import StarkSigning.TypedData.Value

/-!
# StarkSigning.Proofs.TypedData.Inference

What a text of unknown meaning is encoded as. A text that is read as an element is encoded as that
element, and a decimal numeral is never encoded by its characters: a number not below the prime has
more digits than a short string has bytes, so the short string that it falls back to is refused. A
text behind a marker is hexadecimal, well formed or not. Every other text is the number of its
UTF-8 bytes, if there are at most 31 of them.

* `Bytes.ofText_eq`, `Bytes.number_eq_ofDigits`: the bytes of a text and their number.
* `Felt.ofShortString?_of_le`, `Felt.ofShortString?_of_lt`: what a short string is read as.
* `Text.Numeral.lt_utf8ByteSize`: numerals that are too large have too many bytes.
* `TypedValue.infer_agrees_with_reading`: all texts.
-/

namespace StarkSigning

namespace Bytes

theorem ofText_eq (s : String) : ofText s = s.toUTF8.data.toList := by
  rw [String.toUTF8_eq_toByteArray, ← String.utf8Encode_toList, List.utf8Encode,
    List.data_toByteArray, List.toList_toArray, ofText]

theorem length_ofText (s : String) : (ofText s).length = s.utf8ByteSize := by
  rw [ofText_eq]
  rfl

theorem number_eq_ofDigits (bytes : List UInt8) :
    number bytes = Nat.ofDigits 256 (bytes.reverse.map UInt8.toNat) := by
  simp [number, Nat.ofDigits_eq_foldr, List.foldl_map, Nat.add_comm]

end Bytes

namespace Text

/-- So many bytes write numbers below the prime only. -/
theorem Numeral.lt_utf8ByteSize {s : String} {n : Nat} (numeral : Numeral 10 s.toList n)
    (above : fieldPrime ≤ n) : Felt.maxShortStringLength < s.utf8ByteSize := by
  have hexDigits : ∀ c ∈ s.toList, isHexDigit c = true := by
    intro c member
    obtain ⟨d, digit⟩ := (exists_numeral_iff.mp ⟨n, numeral⟩).2 c member
    exact isHexDigit_iff.mpr ⟨d, Nat.lt_trans digit.lt_base (by decide), digit.written⟩
  have length : s.toList.length = s.utf8ByteSize := by
    rw [← byteLength_of_isHexDigit hexDigits, byteLength_eq_length, Bytes.length_ofText]
  by_contra short
  have narrow : Nat.pow 10 s.toList.length ≤ Nat.pow 10 Felt.maxShortStringLength :=
    Nat.pow_le_pow_right (by decide) (by omega)
  have small : Nat.pow 10 Felt.maxShortStringLength < fieldPrime := by decide
  have below := numeral.lt_pow
  omega

end Text

namespace Felt

theorem ofShortString?_of_le {s : String} (short : s.utf8ByteSize ≤ maxShortStringLength) :
    ∃ e : Felt, e.val = Nat.ofDigits 256 (s.toUTF8.data.toList.reverse.map UInt8.toNat) ∧
      ofShortString? s = .ok e := by
  rw [← Bytes.length_ofText] at short
  simp only [ofShortString?, dif_pos short]
  refine ⟨_, ?_, rfl⟩
  rw [← Bytes.ofText_eq]
  exact Bytes.number_eq_ofDigits (Bytes.ofText s)

theorem ofShortString?_of_lt {s : String} (long : maxShortStringLength < s.utf8ByteSize) :
    ofShortString? s = .error (.tooManyBytes s.utf8ByteSize) := by
  rw [← Bytes.length_ofText] at long ⊢
  simp only [ofShortString?, dif_neg (Nat.not_le_of_lt long)]

end Felt

namespace Scalar

theorem infer_of_marked {s : String} (marked : Text.Marked s.toList) : infer s = hex s := by
  rw [infer, if_pos (Text.hasHexMarker_iff.mpr marked)]

theorem infer_of_ofDecimal? {s : String} {e : Felt} (unmarked : ¬ Text.Marked s.toList)
    (read : Felt.ofDecimal? s = .ok e) : infer s = felt e := by
  rw [infer, if_neg (mt Text.hasHexMarker_iff.mp unmarked), read]

/-- Whatever is no decimal numeral of the field is taken by its characters. -/
theorem infer_of_error {s : String} {cause : FeltError} (unmarked : ¬ Text.Marked s.toList)
    (failed : Felt.ofDecimal? s = .error cause) : infer s = shortString s := by
  rw [infer, if_neg (mt Text.hasHexMarker_iff.mp unmarked), failed]

theorem infer_of_lt {s : String} {n : Nat} (numeral : Text.Numeral 10 s.toList n)
    (below : n < fieldPrime) : infer s = felt ⟨n, below⟩ :=
  infer_of_ofDecimal? (Text.not_marked_of_numeral (by decide) numeral)
    (((Felt.ofDecimal?_answers s).ok_iff ⟨n, below⟩).mpr numeral)

theorem infer_of_le {s : String} {n : Nat} (numeral : Text.Numeral 10 s.toList n)
    (above : fieldPrime ≤ n) : infer s = shortString s := by
  cases decimal : Felt.ofDecimal? s with
  | ok e =>
    have same := ((Felt.ofDecimal?_answers s).ok_iff e).mp decimal
    rw [← numeral.decimalValue_eq, same.decimalValue_eq] at above
    exact absurd e.val_lt (Nat.not_lt_of_le above)
  | error cause =>
    exact infer_of_error (Text.not_marked_of_numeral (by decide) numeral) decimal

theorem infer_of_no_numeral {s : String} (unmarked : ¬ Text.Marked s.toList)
    (other : ¬ ∃ n, Text.Numeral 10 s.toList n) : infer s = shortString s := by
  cases decimal : Felt.ofDecimal? s with
  | ok e => exact absurd ⟨_, ((Felt.ofDecimal?_answers s).ok_iff e).mp decimal⟩ other
  | error cause => exact infer_of_error unmarked decimal

theorem toFelt?_infer_of_ofString? {s : String} {e : Felt} (read : Felt.ofString? s = .ok e) :
    (infer s).toFelt? = .ok e := by
  by_cases marked : Text.Marked s.toList
  · rw [Felt.ofString?_of_marked marked] at read
    rw [infer_of_marked marked, toFelt?, read]
  · rw [Felt.ofString?_of_unmarked marked] at read
    rw [infer_of_ofDecimal? marked read, toFelt?]

/-- A numeral that the field does not hold is refused as a short string. -/
theorem toFelt?_infer_of_le {s : String} {n : Nat} (numeral : Text.Numeral 10 s.toList n)
    (above : fieldPrime ≤ n) : (infer s).toFelt? = .error (.tooManyBytes s.utf8ByteSize) := by
  rw [infer_of_le numeral above, toFelt?]
  exact Felt.ofShortString?_of_lt (numeral.lt_utf8ByteSize above)

end Scalar

namespace TypedValue

theorem toFelt?_infer (s : String) :
    (infer s).toFelt? = (Scalar.infer s).toFelt?.mapError .felt := rfl

/-- The answer is that a number is out of its range. -/
def OutOfRange (answer : Except Error Felt) : Prop :=
  ∃ cause, answer = .error cause ∧ cause.kind = .outOfRange

/-- A text that is read as an element is encoded as the element. A decimal numeral is encoded as
its number or is out of range, and never anything else; a text behind a marker is what its
hexadecimal digits are; any other text is the big-endian number of its bytes, 31 at most. -/
theorem infer_agrees_with_reading (s : String) :
    (∀ e, Felt.ofString? s = .ok e → (infer s).toFelt? = .ok e) ∧
    (∀ n, Text.Numeral 10 s.toList n →
      (∀ below : n < fieldPrime, (infer s).toFelt? = .ok ⟨n, below⟩) ∧
      (fieldPrime ≤ n → OutOfRange (infer s).toFelt?)) ∧
    (Text.Marked s.toList → (infer s).toFelt? = (Felt.ofHex? s).mapError .felt) ∧
    (¬ Text.Marked s.toList → (¬ ∃ n, Text.Numeral 10 s.toList n) →
      (s.utf8ByteSize ≤ 31 → ∃ e : Felt,
        e.val = Nat.ofDigits 256 (s.toUTF8.data.toList.reverse.map UInt8.toNat) ∧
        (infer s).toFelt? = .ok e) ∧
      (31 < s.utf8ByteSize → OutOfRange (infer s).toFelt?)) := by
  simp only [toFelt?_infer]
  refine ⟨fun e read => ?_, fun n numeral => ⟨fun below => ?_, fun above => ?_⟩, fun marked => ?_,
    fun unmarked other => ?_⟩
  · rw [Scalar.toFelt?_infer_of_ofString? read, Outcome.mapError_ok]
  · rw [Scalar.infer_of_lt numeral below]
    rfl
  · rw [Scalar.toFelt?_infer_of_le numeral above]
    exact ⟨_, rfl, rfl⟩
  · rw [Scalar.infer_of_marked marked]
    rfl
  · rw [Scalar.infer_of_no_numeral unmarked other, Scalar.toFelt?]
    constructor
    · intro short
      obtain ⟨e, value, read⟩ := Felt.ofShortString?_of_le short
      exact ⟨e, value, by rw [read, Outcome.mapError_ok]⟩
    · intro long
      rw [Felt.ofShortString?_of_lt long]
      exact ⟨_, rfl, rfl⟩

/-- The prime in decimal behind a zero is no short string, and a letter behind a marker is a digit
that is none. -/
theorem infer_agrees_with_reading_prime :
    let text := String.ofList ('0' :: Nat.toDigits 10 fieldPrime)
    Text.Numeral 10 text.toList fieldPrime ∧ OutOfRange (infer text).toFelt? ∧
      Text.Marked "0xg".toList ∧
      (infer "0xg").toFelt? = .error (.felt (.invalidHexDigit "0xg" 'g' 1)) := by
  intro text
  have zero : Text.IsDigit 10 '0' 0 := ⟨by decide, .inl rfl⟩
  have numeral : Text.Numeral 10 text.toList (0 + fieldPrime) := by
    rw [String.toList_ofList, ← Nat.zero_mul]
    exact .cons zero (Text.numeral_toDigits fieldPrime)
  rw [Nat.zero_add] at numeral
  have marked : Text.Marked "0xg".toList := ⟨['0', 'x'], by decide, List.prefix_append _ ['g']⟩
  obtain ⟨-, decimal, -, -⟩ := infer_agrees_with_reading text
  obtain ⟨-, -, hexadecimal, -⟩ := infer_agrees_with_reading "0xg"
  exact ⟨numeral, (decimal fieldPrime numeral).2 (Nat.le_refl _), marked, hexadecimal marked⟩

end TypedValue
end StarkSigning

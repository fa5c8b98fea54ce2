import StarkSigning.Felt.Reading
import StarkSigning.Json.Decode
import StarkSigning.Proofs.Outcome

/-!
# StarkSigning.Proofs.Felt.Written

The number of an element that was read. Every reader of numbers, texts, bytes and documents that
compares with the prime keeps the number as it is written: an accepted one is below the prime, and
nothing has been reduced or cut off on the way.

* `ofNat?_eq_ok_iff`: an element is accepted as its representative.
* `val_of_ofHex?`, `val_of_ofDecimal?`, `val_of_ofString?`: the number that a text writes.
* `writtenNumber?_of_ofJson?`: the number that a document writes.
-/

namespace StarkSigning
namespace Text

theorem hexValue_zero_cons (digits : List Char) : hexValue ('0' :: digits) = hexValue digits := rfl

/-- Leading zeros do not count. -/
theorem hexValue_dropWhile_zero (digits : List Char) :
    hexValue (digits.dropWhile (· == '0')) = hexValue digits := by
  induction digits with
  | nil => rfl
  | cons c rest ih =>
    by_cases zero : c = '0'
    · subst zero
      rw [List.dropWhile_cons_of_pos (by decide), ih, hexValue_zero_cons]
    · rw [List.dropWhile_cons_of_neg (by simpa using zero)]

/-- The number that a text writes: in hexadecimal behind a marker, else in decimal. -/
def writtenNumber (text : List Char) : Nat :=
  if hasHexMarker text then hexValue (dropHexMarker text) else decimalValue text

end Text

/-- The number that a document writes for an element, if it is a text or a natural number. -/
def Json.writtenNumber? : Json → Option Nat
  | .string s => some (Text.writtenNumber s.toList)
  | .number (.natural n) => some n.toNat
  | _ => none

namespace Felt

theorem ofNat?_eq_ok_iff {n : Nat} {e : Felt} : ofNat? n = .ok e ↔ e.val = n := by
  rw [ofNat?]
  constructor
  · intro h
    split at h
    · cases h; rfl
    · cases h
  · rintro rfl
    rw [dif_pos e.val_lt]

theorem val_of_ofHex? {s : String} {e : Felt} (h : ofHex? s = .ok e) :
    e.val = Text.hexValue (Text.dropHexMarker s.toList) := by
  simp only [ofHex?] at h
  split at h
  · cases h
  · split at h
    · cases h
    · split at h
      · rw [ofNat?_eq_ok_iff, Text.hexValue_dropWhile_zero] at h
        exact h
      · cases h

theorem val_of_ofDecimal? {s : String} {e : Felt} (h : ofDecimal? s = .ok e) :
    e.val = Text.decimalValue s.toList := by
  simp only [ofDecimal?] at h
  split at h
  · split at h
    · cases h
    · exact ofNat?_eq_ok_iff.mp h
  · cases h

theorem val_of_ofString? {s : String} {e : Felt} (h : ofString? s = .ok e) :
    e.val = Text.writtenNumber s.toList := by
  rw [ofString?] at h
  rw [Text.writtenNumber]
  split at h
  · rename_i marked
    rw [if_pos marked]
    exact val_of_ofHex? h
  · rename_i unmarked
    rw [if_neg unmarked]
    exact val_of_ofDecimal? h

theorem writtenNumber?_of_ofJson? {j : Json} {e : Felt} (h : ofJson? j = .ok e) :
    j.writtenNumber? = some e.val := by
  cases j with
  | string s =>
    rw [ofJson?, Outcome.mapError_eq_ok_iff] at h
    rw [Json.writtenNumber?, val_of_ofString? h]
  | number n =>
    cases n with
    | natural n => cases h; rfl
    | _ => cases h
  | _ => cases h

end Felt
end StarkSigning

import StarkSigning.Text.Numeral

/-!
# StarkSigning.Bytes

Byte strings as lists, read and written as big-endian numbers.

* `number_lt`: `n` bytes write a number below the power `n` of 256.
* `length_ofNumber`: a number written to a width has that many bytes.
* `number_ofNumber`: reading a number back loses what the width cannot hold, and nothing else.
* `number_dropWhile_zero`, `head?_dropWhile_zero`: leading zero bytes do not count, and dropping
  them leaves none.
-/

namespace StarkSigning
namespace Bytes

/-- The big-endian number of a byte string; the empty one is zero. -/
def number (bytes : List UInt8) : Nat :=
  bytes.foldl (fun value byte => 256 * value + byte.toNat) 0

/-- The last `width` bytes of the big-endian form, padded with zero bytes in front. -/
def ofNumber : Nat → Nat → List UInt8
  | 0, _ => []
  | width + 1, n => ofNumber width (n / 256) ++ [UInt8.ofNat (n % 256)]

def ofText (s : String) : List UInt8 :=
  s.toList.flatMap String.utf8EncodeChar

/-- Two lowercase hexadecimal digits a byte. -/
def hex (bytes : List UInt8) : String :=
  String.ofList (bytes.flatMap fun byte =>
    [(byte.toNat / 16).digitChar, (byte.toNat % 16).digitChar])

theorem number_append_singleton (bytes : List UInt8) (byte : UInt8) :
    number (bytes ++ [byte]) = 256 * number bytes + byte.toNat := by
  simp [number]

theorem number_dropWhile_zero (bytes : List UInt8) :
    number (bytes.dropWhile (· == 0)) = number bytes := by
  induction bytes with
  | nil => rfl
  | cons byte rest ih =>
    by_cases zero : byte = 0
    · subst zero
      rw [List.dropWhile_cons_of_pos (by decide), ih]
      rfl
    · rw [List.dropWhile_cons_of_neg (by simpa using zero)]

theorem head?_dropWhile_zero (bytes : List UInt8) :
    (bytes.dropWhile (· == 0)).head? ≠ some 0 := by
  intro zero
  have first := List.head?_dropWhile_not (· == 0) bytes
  rw [zero] at first
  cases first

theorem number_lt (bytes : List UInt8) : number bytes < Nat.pow 256 bytes.length := by
  have general : ∀ (reversed : List UInt8),
      number reversed.reverse < Nat.pow 256 reversed.length := by
    intro reversed
    induction reversed with
    | nil => decide
    | cons byte rest ih =>
      have small := byte.toNat_lt
      rw [List.reverse_cons, number_append_singleton, List.length_cons, Nat.pow_eq, Nat.pow_succ]
      rw [Nat.pow_eq] at ih
      omega
  simpa using general bytes.reverse

theorem length_ofNumber (width n : Nat) : (ofNumber width n).length = width := by
  induction width generalizing n with
  | zero => rfl
  | succ width ih => simp [ofNumber, ih]

theorem number_ofNumber (width n : Nat) :
    number (ofNumber width n) = n % Nat.pow 256 width := by
  induction width generalizing n with
  | zero => simp [ofNumber, number, Nat.mod_one]
  | succ width ih =>
    have byte : (UInt8.ofNat (n % 256)).toNat = n % 256 := by
      simp [UInt8.toNat_ofNat']
    rw [ofNumber, number_append_singleton, ih, byte, Nat.pow_eq, Nat.pow_eq, Nat.pow_succ,
      Nat.mul_comm (256 ^ width), Nat.mod_mul]
    omega

end Bytes
end StarkSigning

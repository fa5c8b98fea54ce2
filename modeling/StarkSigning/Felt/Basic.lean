import StarkSigning.Bytes

/-!
# StarkSigning.Felt.Basic

Elements of the STARK prime field: the numbers below `2 ^ 251 + 17 * 2 ^ 192 + 1`. A number is
turned into an element only if it is one; nothing is reduced on the way in. This module holds the
type, its order, and its fixed-width forms.

* `number_toBytes`: the 32-byte form writes the representative.
-/

namespace StarkSigning

/-- The STARK prime, `2 ^ 251 + 17 * 2 ^ 192 + 1`. -/
def fieldPrime : Nat :=
  0x800000000000011000000000000000000000000000000000000000000000001

/-- An element of the field, by its representative below the prime. -/
structure Felt where
  val : Nat
  val_lt : val < fieldPrime
deriving DecidableEq

namespace Felt

@[ext] theorem ext {a b : Felt} (h : a.val = b.val) : a = b := by
  cases a; cases b; cases h; rfl

def zero : Felt := ⟨0, by decide⟩

def one : Felt := ⟨1, by decide⟩

instance : Inhabited Felt := ⟨zero⟩

def isZero (e : Felt) : Bool :=
  e.val == 0

/-- A word of at most 251 bits is an element as it stands. -/
def ofBitVec {width : Nat} (n : BitVec width) (h : width ≤ 251) : Felt :=
  ⟨n.toNat, by
    have small : n.toNat < 2 ^ 251 :=
      Nat.lt_of_lt_of_le n.isLt (Nat.pow_le_pow_right (by decide) h)
    exact Nat.lt_trans small (by decide)⟩

def ofUInt64 (n : UInt64) : Felt :=
  ofBitVec n.toBitVec (by decide)

/-- The length of a list as an element; lengths are counted in 64 bits. -/
def ofLength {α : Type} (items : List α) : Felt :=
  ofUInt64 (UInt64.ofNat items.length)

/-- The 32 bytes of the element, most significant first. -/
def toBytes (e : Felt) : List UInt8 :=
  Bytes.ofNumber 32 e.val

/-- Lowercase hexadecimal behind `0x`, without leading zeros. -/
def toHex (e : Felt) : String :=
  Text.hex e.val

/-- The 64 hexadecimal digits of the 32 bytes, behind `0x`. -/
def toPaddedHex (e : Felt) : String :=
  "0x" ++ Bytes.hex e.toBytes

/-- The form that names the type, for logs and assertions. -/
def describe (e : Felt) : String :=
  "Felt(" ++ e.toHex ++ ")"

def toDecimal (e : Felt) : String :=
  String.ofList (Nat.toDigits 10 e.val)

/-- In increasing order, each element once. -/
def sortDistinct (elements : List Felt) : List Felt :=
  (elements.mergeSort fun a b => a.val ≤ b.val).eraseReps

theorem number_toBytes (e : Felt) : Bytes.number e.toBytes = e.val := by
  have small : e.val < Nat.pow 256 32 := Nat.lt_trans e.val_lt (by decide)
  rw [toBytes, Bytes.number_ofNumber, Nat.mod_eq_of_lt small]

end Felt
end StarkSigning

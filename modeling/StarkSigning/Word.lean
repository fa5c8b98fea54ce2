import StarkSigning.Felt.Basic

/-!
# StarkSigning.Word

Words of 256 bits, the operands of all arithmetic below. A word need not be reduced modulo
anything; addition, subtraction and multiplication wrap at `2 ^ 256`.

* `toNat_ofNat`, `ofNat_toNat`: a number below the bound is kept, and so is a word.
* `number_significantBytes`, `head?_significantBytes`: the significant bytes write the word, and the
  first of them is not zero.
* `toNat_toWord`: the word of a field element is its representative.
-/

namespace StarkSigning

abbrev Word := BitVec 256

namespace Word

/-- The number of words. -/
def size : Nat :=
  0x10000000000000000000000000000000000000000000000000000000000000000

def ofNat (n : Nat) : Word :=
  BitVec.ofNat 256 n

def toHex (w : Word) : String :=
  Text.hex w.toNat

/-- How many binary digits the word has without leading zeros; zero has none. -/
def bitLength (w : Word) : Nat :=
  if w = 0 then 0 else w.toNat.log2 + 1

/-- The bytes of the word without leading zero bytes; zero has none. -/
def significantBytes (w : Word) : List UInt8 :=
  (Bytes.ofNumber 32 w.toNat).dropWhile (· == 0)

theorem toNat_lt_size (w : Word) : w.toNat < size :=
  w.isLt

theorem toNat_ofNat {n : Nat} (h : n < size) : (ofNat n).toNat = n := by
  rw [ofNat, BitVec.toNat_ofNat]
  exact Nat.mod_eq_of_lt h

theorem ofNat_toNat (w : Word) : ofNat w.toNat = w :=
  BitVec.eq_of_toNat_eq (toNat_ofNat w.toNat_lt_size)

theorem number_significantBytes (w : Word) : Bytes.number w.significantBytes = w.toNat := by
  have bound : Nat.pow 256 32 = size := by decide +kernel
  rw [significantBytes, Bytes.number_dropWhile_zero, Bytes.number_ofNumber, bound]
  exact Nat.mod_eq_of_lt w.toNat_lt_size

theorem head?_significantBytes (w : Word) : w.significantBytes.head? ≠ some 0 :=
  Bytes.head?_dropWhile_zero _

end Word

def Felt.toWord (e : Felt) : Word :=
  Word.ofNat e.val

theorem Felt.toNat_toWord (e : Felt) : e.toWord.toNat = e.val :=
  Word.toNat_ofNat (Nat.lt_trans e.val_lt (by decide))

end StarkSigning

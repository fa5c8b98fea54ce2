import StarkSigning.Modular

/-!
# StarkSigning.Field

Words as elements of the STARK prime field, and the arithmetic of the field on words.
Multiplication, squaring and inversion take any word. Addition, subtraction and negation take words
below the prime: they correct the result once by the prime and wrap at 256 bits, so that other
operands give a word that need not be reduced.

* `toNat_add`, `toNat_sub`, `toNat_neg`: on words below the prime these are the operations modulo
  the prime.
* `toNat_mul`: so is multiplication, on any words.
-/

namespace StarkSigning

/-- A word as a field element; one not below the prime is refused. -/
def Word.toFelt? (w : Word) : Except Error Felt :=
  (Felt.ofNat? w.toNat).mapError .felt

namespace Field

def prime : Word :=
  Word.ofNat fieldPrime

def reduce (a : Word) : Word :=
  a % prime

def add (a b : Word) : Word :=
  if a.toNat + b.toNat < fieldPrime then a + b else a + b - prime

def sub (a b : Word) : Word :=
  Modular.sub a b prime

def mul (a b : Word) : Word :=
  Modular.mul a b prime

def square (a : Word) : Word :=
  mul a a

def neg (a : Word) : Word :=
  if a = 0 then 0 else prime - a

def inv? (a : Word) : Except Error Word :=
  Modular.inverse? a prime

def div? (a b : Word) : Except Error Word :=
  Modular.div? a b prime

theorem toNat_prime : prime.toNat = fieldPrime :=
  Word.toNat_ofNat (by decide)

theorem prime_pos : 0 < prime.toNat := by
  rw [toNat_prime]
  decide

theorem toNat_reduce (a : Word) : (reduce a).toNat = a.toNat % fieldPrime := by
  rw [reduce, BitVec.toNat_umod, toNat_prime]

theorem toNat_mul (a b : Word) : (mul a b).toNat = a.toNat * b.toNat % fieldPrime := by
  rw [mul, Modular.toNat_mul prime_pos, toNat_prime]

theorem toNat_sub {a b : Word} (ha : a.toNat < fieldPrime) (hb : b.toNat < fieldPrime) :
    (sub a b).toNat = (fieldPrime + a.toNat - b.toNat) % fieldPrime := by
  rw [← toNat_prime] at ha hb ⊢
  exact Modular.toNat_sub ha hb

theorem toNat_add {a b : Word} (ha : a.toNat < fieldPrime) (hb : b.toNat < fieldPrime) :
    (add a b).toNat = (a.toNat + b.toNat) % fieldPrime := by
  have twice : fieldPrime + fieldPrime < 2 ^ 256 := by decide
  have sum : (a + b).toNat = a.toNat + b.toNat :=
    BitVec.toNat_add_of_lt (by omega)
  rw [add]
  by_cases h : a.toNat + b.toNat < fieldPrime
  · rw [if_pos h, sum, Nat.mod_eq_of_lt h]
  · have above : prime ≤ a + b := by
      rw [BitVec.le_def, sum, toNat_prime]
      omega
    rw [if_neg h, BitVec.toNat_sub_of_le above, sum, toNat_prime,
      Nat.mod_eq_sub_mod (by omega), Nat.mod_eq_of_lt (by omega)]

theorem toNat_neg {a : Word} (ha : a.toNat < fieldPrime) :
    (neg a).toNat = (fieldPrime - a.toNat) % fieldPrime := by
  rw [neg]
  by_cases h : a = 0
  · subst h
    rfl
  · have positive : a.toNat ≠ 0 := fun zero => h (BitVec.eq_of_toNat_eq zero)
    have below : a ≤ prime := by
      rw [BitVec.le_def, toNat_prime]
      omega
    rw [if_neg h, BitVec.toNat_sub_of_le below, toNat_prime, Nat.mod_eq_of_lt (by omega)]

end Field
end StarkSigning

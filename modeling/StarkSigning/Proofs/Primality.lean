import Mathlib.Data.List.Prime
import Mathlib.NumberTheory.LucasPrimality
import StarkSigning.Curve.Multiple

/-!
# StarkSigning.Proofs.Primality

The two moduli are prime. Lucas's test asks for a witness whose power to `p - 1` is one modulo `p`
and whose power to `(p - 1) / q` is not, for every prime `q` that divides `p - 1`. A chain of
entries proves such factors prime first, each from those behind it in the list.

* `prime_of_chain`: every number that a checked chain enters is prime.
* `fieldPrime_prime`, `order_prime`: so are the size of the field and the order of the curve.
-/

namespace StarkSigning
namespace Primality

/-- The power of the base, modulo `modulus`, to the number that the digits write, least
significant first. -/
def power (modulus base : Nat) : List Bool → Nat
  | [] => 1 % modulus
  | bit :: rest =>
    let high := power modulus (base * base % modulus) rest
    if bit then high * base % modulus else high

/-- One prime with a witness for it and the primes that divide its predecessor. -/
structure Entry where
  prime : Nat
  witness : Nat
  factors : List Nat

namespace Entry

/-- The witness to the power of the exponent, modulo the prime. -/
def witnessPower (e : Entry) (exponent : Nat) : Nat :=
  power e.prime e.witness (lowBits exponent (exponent.log2 + 1))

/-- Lucas's test, given numbers already known to be prime. No prime but the factors can divide
`p - 1`, because a power of their product is a multiple of it. -/
def passes (known : List Nat) (e : Entry) : Bool :=
  decide (2 ≤ e.prime) && e.factors.all (fun q => known.contains q) &&
    e.factors.prod ^ 256 % (e.prime - 1) == 0 && e.witnessPower (e.prime - 1) == 1 &&
    e.factors.all fun q => e.witnessPower ((e.prime - 1) / q) != 1

end Entry

/-- Every entry passes the test with the primes behind it. -/
def chain : List Entry → Bool
  | [] => true
  | e :: rest => e.passes (rest.map Entry.prime) && chain rest

theorem power_eq (modulus base : Nat) (bits : List Bool) :
    power modulus base bits = base ^ bitsNumber bits % modulus := by
  induction bits generalizing base with
  | nil => rw [power, bitsNumber, Nat.pow_zero]
  | cons bit rest ih =>
    have square : (base * base % modulus) ^ bitsNumber rest % modulus =
        base ^ (2 * bitsNumber rest) % modulus := by
      rw [← Nat.pow_mod, Nat.pow_mul, Nat.pow_two]
    rw [power, ih, square]
    cases bit with
    | false => rw [if_neg Bool.false_ne_true, bitsNumber, Bool.toNat_false, Nat.zero_add]
    | true =>
      rw [if_pos rfl, bitsNumber, Bool.toNat_true, Nat.mod_mul_mod, ← Nat.pow_succ,
        Nat.add_comm 1]

theorem witnessPower_eq (e : Entry) (exponent : Nat) :
    e.witnessPower exponent = e.witness ^ exponent % e.prime := by
  rw [Entry.witnessPower, power_eq, number_lowBits, Nat.pow_eq,
    Nat.mod_eq_of_lt Nat.lt_log2_self]

theorem witness_pow_eq_one_iff {e : Entry} (two_le : 2 ≤ e.prime) (exponent : Nat) :
    (e.witness : ZMod e.prime) ^ exponent = 1 ↔ e.witnessPower exponent = 1 := by
  rw [witnessPower_eq, ← Nat.cast_pow, ← Nat.cast_one, ZMod.natCast_eq_natCast_iff',
    Nat.mod_eq_of_lt two_le]

/-- A prime that divides a number with a multiple among the powers of a product of primes is one
of these. -/
theorem mem_of_dvd_of_prod_pow {factors : List Nat} {n q exponent : Nat} (hq : q.Prime)
    (primes : ∀ f ∈ factors, f.Prime) (multiple : factors.prod ^ exponent % n = 0)
    (divides : q ∣ n) : q ∈ factors := by
  have product : q ∣ factors.prod :=
    hq.dvd_of_dvd_pow (divides.trans (Nat.dvd_of_mod_eq_zero multiple))
  obtain ⟨f, member, hf⟩ := (Prime.dvd_prod_iff hq.prime).mp product
  rwa [(Nat.prime_dvd_prime_iff_eq hq (primes f member)).mp hf]

theorem prime_of_passes {known : List Nat} {e : Entry} (primes : ∀ q ∈ known, q.Prime)
    (h : e.passes known = true) : e.prime.Prime := by
  simp only [Entry.passes, Bool.and_eq_true, decide_eq_true_eq, List.all_eq_true, beq_iff_eq,
    bne_iff_ne, List.contains_iff_mem] at h
  obtain ⟨⟨⟨⟨two_le, members⟩, multiple⟩, whole⟩, parts⟩ := h
  refine lucas_primality e.prime (e.witness : ZMod e.prime) ?_ ?_
  · exact (witness_pow_eq_one_iff two_le _).mpr whole
  · intro q hq divides one
    have member : q ∈ e.factors :=
      mem_of_dvd_of_prod_pow hq (fun f hf => primes f (members f hf)) multiple divides
    exact parts q member ((witness_pow_eq_one_iff two_le _).mp one)

theorem prime_of_chain {entries : List Entry} (h : chain entries = true) :
    ∀ e ∈ entries, e.prime.Prime := by
  induction entries with
  | nil => intro e he; cases he
  | cons first rest ih =>
    rw [chain, Bool.and_eq_true] at h
    have behind := ih h.2
    intro e he
    rcases List.mem_cons.mp he with rfl | he
    · refine prime_of_passes (fun q hq => ?_) h.1
      obtain ⟨f, hf, rfl⟩ := List.mem_map.mp hq
      exact behind f hf
    · exact behind e he

/-- The two moduli, and all primes that their tests rest on, in decreasing order. -/
def entries : List Entry :=
  [⟨fieldPrime, 3, [2, 5, 7, 98714381, 166848103]⟩,
   ⟨Curve.order, 3, [2, 3, 1481071, 74436419,
      5470365079085120887157193270902448565659295524958143968059153]⟩,
   ⟨5470365079085120887157193270902448565659295524958143968059153, 15,
     [2, 3, 131797, 10108547, 22206313, 74837449, 28547348873, 1803099112058626586861]⟩,
   ⟨1803099112058626586861, 2, [2, 5, 37, 43, 4391, 12904939923103]⟩,
   ⟨12904939923103, 3, [2, 3, 61, 11753132899]⟩, ⟨28547348873, 3, [2, 7, 17, 53, 565787]⟩,
   ⟨11753132899, 3, [2, 3, 13, 19, 41, 67, 2887]⟩, ⟨166848103, 6, [2, 3, 9269339]⟩,
   ⟨98714381, 2, [2, 5, 4935719]⟩, ⟨74837449, 13, [2, 3, 7, 83, 1789]⟩,
   ⟨74436419, 7, [2, 7, 23, 231169]⟩, ⟨22206313, 5, [2, 3, 11423]⟩,
   ⟨10108547, 2, [2, 7, 23, 31393]⟩, ⟨9269339, 6, [2, 13, 43, 8291]⟩, ⟨4935719, 17, [2, 2467859]⟩,
   ⟨2467859, 2, [2, 1233929]⟩, ⟨1481071, 3, [2, 3, 5, 49369]⟩, ⟨1233929, 6, [2, 17, 43, 211]⟩,
   ⟨565787, 2, [2, 13, 47, 463]⟩, ⟨231169, 17, [2, 3, 7, 43]⟩, ⟨131797, 5, [2, 3, 7, 523]⟩,
   ⟨49369, 13, [2, 3, 11, 17]⟩, ⟨31393, 5, [2, 3, 109]⟩, ⟨11423, 5, [2, 5711]⟩,
   ⟨8291, 2, [2, 5, 829]⟩, ⟨5711, 19, [2, 5, 571]⟩, ⟨4391, 14, [2, 5, 439]⟩,
   ⟨2887, 5, [2, 3, 13, 37]⟩, ⟨1789, 6, [2, 3, 149]⟩, ⟨829, 2, [2, 3, 23]⟩, ⟨571, 3, [2, 3, 5, 19]⟩,
   ⟨523, 2, [2, 3, 29]⟩, ⟨463, 3, [2, 3, 7, 11]⟩, ⟨439, 15, [2, 3, 73]⟩, ⟨211, 2, [2, 3, 5, 7]⟩,
   ⟨149, 2, [2, 37]⟩, ⟨109, 6, [2, 3]⟩, ⟨83, 2, [2, 41]⟩, ⟨73, 5, [2, 3]⟩, ⟨67, 2, [2, 3, 11]⟩,
   ⟨61, 2, [2, 3, 5]⟩, ⟨53, 2, [2, 13]⟩, ⟨47, 5, [2, 23]⟩, ⟨43, 3, [2, 3, 7]⟩, ⟨41, 6, [2, 5]⟩,
   ⟨37, 2, [2, 3]⟩, ⟨29, 2, [2, 7]⟩, ⟨23, 5, [2, 11]⟩, ⟨19, 2, [2, 3]⟩, ⟨17, 3, [2]⟩,
   ⟨13, 2, [2, 3]⟩, ⟨11, 2, [2, 5]⟩, ⟨7, 3, [2, 3]⟩, ⟨5, 2, [2]⟩, ⟨3, 2, [2]⟩, ⟨2, 1, []⟩]

theorem chain_entries : chain entries = true := by decide +kernel

end Primality

theorem fieldPrime_prime : fieldPrime.Prime :=
  Primality.prime_of_chain Primality.chain_entries _ List.mem_cons_self

theorem Curve.order_prime : Curve.order.Prime :=
  Primality.prime_of_chain Primality.chain_entries _ (List.mem_cons_of_mem _ List.mem_cons_self)

instance : Fact fieldPrime.Prime := ⟨fieldPrime_prime⟩

instance : Fact Curve.order.Prime := ⟨Curve.order_prime⟩

end StarkSigning

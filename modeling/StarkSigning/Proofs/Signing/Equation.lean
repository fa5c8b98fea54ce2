import StarkSigning.Proofs.Signing.Agreement
import StarkSigning.Proofs.Signing.Refusal

/-!
# StarkSigning.Proofs.Signing.Equation

One attempt to sign solves the equation of the scheme. With a nonce from one up to below the order,
its multiple of the generator is finite, and three conditions decide the attempt: `r` is in range,
the sum `r * key + hash` is not zero modulo the order, and the quotient `w` of the nonce by that sum
is in range. Then `s`, the inverse of `w`, exists and is not zero, and verification, which inverts
`s` again, gets `w` back.

* `mul_orderInverse`: the inverse modulo the order, which is a prime.
* `exists_ofNonce?_eq`: an attempt is its three conditions in order, then the signature.
* `ofNonce?_solves_equation`: when an attempt makes a signature, and what holds of it.
-/

namespace StarkSigning
namespace Signature

open Curve Point Outcome

/-! ## Inverses modulo the order -/

theorem orderInverse_lt (n : Nat) : orderInverse n < order := by
  have : NeZero order := ⟨by decide⟩
  exact ZMod.val_lt _

theorem orderInverse_mod (n : Nat) : orderInverse (n % order) = orderInverse n := by
  rw [orderInverse, orderInverse, ZMod.natCast_mod]

theorem mul_orderInverse {n : Nat} (h : ¬ order ∣ n) : n * orderInverse n ≡ 1 [MOD order] := by
  have : Fact order.Prime := ⟨order_prime⟩
  have ne_zero : (n : ZMod order) ≠ 0 := by
    rw [Ne, ZMod.natCast_eq_zero_iff]
    exact h
  rw [← ZMod.natCast_eq_natCast_iff, Nat.cast_mul, orderInverse, ZMod.natCast_zmod_val,
    Nat.cast_one]
  exact mul_inv_cancel₀ ne_zero

/-! ## The conditions of an attempt -/

/-- The sum `r * key + hash`. -/
def attemptSum (privateKey messageHash : Felt) (r : Word) : Nat :=
  r.toNat * privateKey.val + messageHash.val

/-- The quotient of the nonce by the sum, modulo the order. -/
def attemptQuotient (privateKey messageHash : Felt) (k r : Word) : Nat :=
  k.toNat * orderInverse (attemptSum privateKey messageHash r) % order

/-- The conditions on the numbers of an attempt, in the order of the checks. -/
def attemptChecks (privateKey messageHash : Felt) (k r : Word) : List Check :=
  [.range .signatureR r.toNat elementBound,
   ⟨decide (¬ order ∣ attemptSum privateKey messageHash r), .notInvertible 0 orderWord⟩,
   .range .signatureW (attemptQuotient privateKey messageHash k r) elementBound]

/-- The sum as an attempt computes it, reduced after each operation. -/
def sumWord (privateKey messageHash : Felt) (r : Word) : Word :=
  Modular.add (Modular.mul r privateKey.toWord orderWord) messageHash.toWord orderWord

theorem orderWord_pos : 0 < orderWord.toNat := by
  rw [toNat_orderWord]
  decide

theorem toNat_sumWord (privateKey messageHash : Felt) (r : Word) :
    (sumWord privateKey messageHash r).toNat = attemptSum privateKey messageHash r % order := by
  rw [sumWord, Modular.toNat_add orderWord_pos, Modular.toNat_mul orderWord_pos, toNat_orderWord,
    Felt.toNat_toWord, Felt.toNat_toWord, Nat.mod_add_mod, attemptSum]

/-- The quotient solves the equation of the attempt. -/
theorem attemptQuotient_mul_sum {privateKey messageHash : Felt} {k r : Word}
    (h : ¬ order ∣ attemptSum privateKey messageHash r) :
    attemptQuotient privateKey messageHash k r * attemptSum privateKey messageHash r ≡ k.toNat
      [MOD order] := by
  let sum := attemptSum privateKey messageHash r
  calc k.toNat * orderInverse sum % order * sum
      ≡ k.toNat * orderInverse sum * sum [MOD order] := (Nat.mod_modEq _ _).mul_right _
    _ = k.toNat * (sum * orderInverse sum) := by rw [Nat.mul_assoc, Nat.mul_comm sum]
    _ ≡ k.toNat * 1 [MOD order] := (mul_orderInverse h).mul_left _
    _ = k.toNat := Nat.mul_one _

theorem attemptQuotient_pos {privateKey messageHash : Felt} {k r : Word}
    (nonceRange : 0 < k.toNat ∧ k.toNat < order)
    (h : ¬ order ∣ attemptSum privateKey messageHash r) :
    0 < attemptQuotient privateKey messageHash k r := by
  rw [Nat.pos_iff_ne_zero]
  intro zero
  have product := attemptQuotient_mul_sum (k := k) h
  rw [zero, Nat.zero_mul] at product
  have same := Nat.ModEq.eq_of_lt_of_lt product (by omega) nonceRange.2
  omega

theorem div?_sumWord {privateKey messageHash : Felt} {k r : Word}
    (h : ¬ order ∣ attemptSum privateKey messageHash r) :
    ∃ w, Modular.div? k (sumWord privateKey messageHash r) orderWord = .ok w ∧
      w.toNat = attemptQuotient privateKey messageHash k r := by
  have sum_lt : (sumWord privateKey messageHash r).toNat < order := by
    rw [toNat_sumWord]
    exact Nat.mod_lt _ (by decide)
  have sum_pos : 0 < (sumWord privateKey messageHash r).toNat := by
    rw [toNat_sumWord, Nat.pos_iff_ne_zero]
    exact fun zero => h (Nat.dvd_of_mod_eq_zero zero)
  obtain ⟨i, inverse, i_eq, -⟩ := inverse?_orderWord sum_pos sum_lt
  refine ⟨_, Modular.div?_of_inverse? inverse, ?_⟩
  rw [Modular.toNat_mul orderWord_pos, toNat_orderWord, i_eq, toNat_sumWord, orderInverse_mod,
    attemptQuotient]

theorem div?_sumWord_of_dvd {privateKey messageHash : Felt} {k r : Word}
    (h : order ∣ attemptSum privateKey messageHash r) :
    Modular.div? k (sumWord privateKey messageHash r) orderWord =
      .error (.notInvertible 0 orderWord) := by
  have zero : sumWord privateKey messageHash r = 0 := by
    apply BitVec.eq_of_toNat_eq
    rw [toNat_sumWord, Nat.mod_eq_zero_of_dvd h]
    rfl
  have shared : ¬ (0 : Word).toNat.Coprime orderWord.toNat := by
    rw [toNat_orderWord]
    decide
  have two_le : 2 ≤ orderWord.toNat := by
    rw [toNat_orderWord]
    decide
  rw [zero, Modular.div?, Modular.inverse?_of_not_coprime two_le shared]

/-! ## The attempt -/

/-- The first number of an attempt is the `x` of a finite point; then come the three conditions, and
behind them nothing fails. -/
theorem exists_ofNonce?_eq (privateKey messageHash : Felt) {k : Word}
    (nonceRange : 0 < k.toNat ∧ k.toNat < order) :
    ∃ r y sig, multiple? k generator = .ok (affine r y) ∧ sig.r.toWord = r ∧
      sig.s.val = orderInverse (attemptQuotient privateKey messageHash k r) ∧
      ofNonce? privateKey messageHash k =
        answerBehind (attemptChecks privateKey messageHash k r) sig := by
  obtain ⟨r, y, point, r_lt, -⟩ :=
    exists_affine_of_ne_zero (smul_base_ne_zero nonceRange.1 nonceRange.2)
  have multiple := multiple?_generator k
  rw [point] at multiple
  let n := orderInverse (attemptQuotient privateKey messageHash k r)
  have n_lt : n < fieldPrime := Nat.lt_trans (orderInverse_lt _) (by decide)
  have n_word : (Word.ofNat n).toNat = n := Word.toNat_ofNat (Nat.lt_trans n_lt (by decide))
  have n_reduced : (Word.ofNat n).toNat < fieldPrime := by
    rw [n_word]
    exact n_lt
  obtain ⟨rFelt, r_read, r_eq⟩ := Word.exists_toFelt?_eq_ok r_lt
  obtain ⟨sFelt, s_read, s_eq⟩ := Word.exists_toFelt?_eq_ok n_reduced
  refine ⟨r, y, ⟨rFelt, sFelt⟩, multiple, r_eq, ?_, ?_⟩
  · rw [← Felt.toNat_toWord, s_eq, n_word]
  rw [ofNonce?, multiple, ok_bind]
  simp only [requireBelow_bind, attemptChecks, answerBehind_cons]
  refine ite_congr rfl (fun _ => ?_) (fun _ => rfl)
  by_cases vanishes : order ∣ attemptSum privateKey messageHash r
  · have refused := div?_sumWord_of_dvd (k := k) vanishes
    rw [sumWord] at refused
    rw [refused, error_bind, decide_eq_false (not_not.mpr vanishes), if_neg Bool.false_ne_true]
  · obtain ⟨w, quotient, w_eq⟩ := div?_sumWord (k := k) vanishes
    have w_pos : 0 < w.toNat := by
      rw [w_eq]
      exact attemptQuotient_pos nonceRange vanishes
    have w_lt : w.toNat < order := by
      rw [w_eq]
      exact Nat.mod_lt _ (by decide)
    obtain ⟨s, inverse, s_val, -⟩ := inverse?_orderWord w_pos w_lt
    rw [sumWord] at quotient
    rw [quotient, ok_bind, decide_eq_true vanishes, if_pos rfl, w_eq]
    refine ite_congr rfl (fun _ => ?_) (fun _ => rfl)
    have s_word : s = Word.ofNat n := by
      apply BitVec.eq_of_toNat_eq
      rw [s_val, w_eq, n_word]
    rw [inverse, ok_bind, r_read, ok_bind, s_word, s_read]
    rfl

theorem firstFault_attemptChecks_eq_none_iff (privateKey messageHash : Felt) {k r : Word}
    (nonceRange : 0 < k.toNat ∧ k.toNat < order) :
    firstFault (attemptChecks privateKey messageHash k r) = none ↔
      (0 < r.toNat ∧ r.toNat < elementBound) ∧ ¬ order ∣ attemptSum privateKey messageHash r ∧
        attemptQuotient privateKey messageHash k r < elementBound := by
  have positive : ¬ order ∣ attemptSum privateKey messageHash r →
      0 < attemptQuotient privateKey messageHash k r := attemptQuotient_pos nonceRange
  simp only [firstFault, Option.map_eq_none_iff, List.find?_eq_none, attemptChecks, Check.range,
    List.forall_mem_cons, List.not_mem_nil, false_imp_iff, implies_true, and_true,
    Bool.not_eq_true', decide_eq_false_iff_not, not_not]
  constructor
  · rintro ⟨r_range, invertible, w_range⟩
    exact ⟨r_range, invertible, w_range.2⟩
  · rintro ⟨r_range, invertible, w_lt⟩
    exact ⟨r_range, invertible, positive invertible, w_lt⟩

theorem answerBehind_eq_ok_iff {α : Type} {conditions : List Check} {answer given : α} :
    answerBehind conditions answer = .ok given ↔ firstFault conditions = none ∧ given = answer := by
  rw [answerBehind]
  cases firstFault conditions with
  | none => simp [eq_comm]
  | some e => simp

/-- With all numbers in range, verification can only refuse the key. -/
theorem firstFault_checks_of_ranges {publicKey : Point} {messageHash : Felt} {sig : Signature}
    {e : Error} (r_range : 0 < sig.r.val ∧ sig.r.val < elementBound)
    (s_range : 0 < sig.s.val ∧ sig.s.val < order)
    (hash_range : 0 < messageHash.val ∧ messageHash.val < elementBound)
    (w_lt : orderInverse sig.s.val < elementBound) :
    firstFault (checks publicKey messageHash sig) = some e ↔
      e = .point .unusablePublicKey ∧ (publicKey = infinity ∨ publicKey.onCurve = false) := by
  simp only [firstFault, checks, Check.range, List.find?_cons, decide_eq_true r_range,
    decide_eq_true s_range, decide_eq_true hash_range, decide_eq_true w_lt, List.find?_nil,
    Bool.not_true]
  rw [@eq_comm Error e]
  cases publicKey with
  | infinity => simp [isInfinity]
  | affine x y =>
    cases (affine x y).onCurve with
    | false => simp [isInfinity]
    | true => simp [isInfinity]

/-- What holds of `s` once the three conditions do: it is the inverse of the quotient. -/
theorem orderInverse_attemptQuotient (privateKey messageHash : Felt) {k r : Word}
    (nonceRange : 0 < k.toNat ∧ k.toNat < order)
    (invertible : ¬ order ∣ attemptSum privateKey messageHash r) :
    let w := attemptQuotient privateKey messageHash k r
    0 < orderInverse w ∧ orderInverse (orderInverse w) = w ∧
      orderInverse w * k.toNat ≡ attemptSum privateKey messageHash r [MOD order] := by
  intro w
  have w_pos : 0 < w := attemptQuotient_pos nonceRange invertible
  have w_lt : w < order := Nat.mod_lt _ (by decide)
  have product : orderInverse w * w ≡ 1 [MOD order] := by
    rw [Nat.mul_comm]
    exact mul_orderInverse (Nat.not_dvd_of_pos_of_lt w_pos w_lt)
  refine ⟨?_, orderInverse_eq_of_mul product w_lt, ?_⟩
  · rw [Nat.pos_iff_ne_zero]
    intro zero
    rw [zero, Nat.zero_mul] at product
    exact absurd product (by decide)
  · calc orderInverse w * k.toNat
        ≡ orderInverse w * (w * attemptSum privateKey messageHash r) [MOD order] :=
          (attemptQuotient_mul_sum invertible).symm.mul_left _
      _ = orderInverse w * w * attemptSum privateKey messageHash r := by rw [Nat.mul_assoc]
      _ ≡ 1 * attemptSum privateKey messageHash r [MOD order] := product.mul_right _
      _ = attemptSum privateKey messageHash r := Nat.one_mul _

/-- With a nonce from one up to below the order, `r` is the `x` of a finite point, and an attempt
makes a signature exactly if `r` is in range, the sum `r * key + hash` is not zero modulo the order,
and the quotient `w` of the nonce by the sum is below `2 ^ 251`; otherwise the first of these that
fails is the error. A signature made has this `r` and an `s` in range with `s * k` equal to the sum
modulo the order, verification inverts `s` to `w` again, and so refuses nothing but an unusable
key. -/
theorem ofNonce?_solves_equation (privateKey messageHash : Felt) (k : Word)
    (hashRange : 0 < messageHash.val ∧ messageHash.val < elementBound)
    (nonceRange : 0 < k.toNat ∧ k.toNat < order) :
    ∃ r y, multiple? k generator = .ok (affine r y) ∧
      ((∃ sig, ofNonce? privateKey messageHash k = .ok sig) ↔
        (0 < r.toNat ∧ r.toNat < elementBound) ∧
          ¬ order ∣ attemptSum privateKey messageHash r ∧
          attemptQuotient privateKey messageHash k r < elementBound) ∧
      (∀ e, ofNonce? privateKey messageHash k = .error e ↔
        firstFault (attemptChecks privateKey messageHash k r) = some e) ∧
      ∀ sig, ofNonce? privateKey messageHash k = .ok sig →
        sig.r.toWord = r ∧ (0 < sig.s.val ∧ sig.s.val < order) ∧
        sig.s.val * k.toNat ≡ attemptSum privateKey messageHash r [MOD order] ∧
        Modular.inverse? sig.s.toWord orderWord =
          .ok (Word.ofNat (attemptQuotient privateKey messageHash k r)) ∧
        ∀ publicKey e, verify? publicKey messageHash sig = .error e ↔
          e = .point .unusablePublicKey ∧
            (publicKey = infinity ∨ publicKey.onCurve = false) := by
  obtain ⟨r, y, made, multiple, r_eq, s_eq, attempt⟩ :=
    exists_ofNonce?_eq privateKey messageHash nonceRange
  have passes := firstFault_attemptChecks_eq_none_iff privateKey messageHash (r := r) nonceRange
  refine ⟨r, y, multiple, ?_, ?_, ?_⟩
  · simp only [attempt, answerBehind_eq_ok_iff, exists_and_left, exists_eq, and_true, passes]
  · intro e
    rw [attempt, answerBehind_eq_error_iff]
  · intro sig signed
    rw [attempt, answerBehind_eq_ok_iff, passes] at signed
    obtain ⟨⟨r_range, invertible, w_lt⟩, rfl⟩ := signed
    obtain ⟨s_pos, involutive, equation⟩ :=
      orderInverse_attemptQuotient privateKey messageHash nonceRange invertible
    rw [← s_eq] at s_pos involutive equation
    have s_lt : sig.s.val < order := by
      rw [s_eq]
      exact orderInverse_lt _
    refine ⟨r_eq, ⟨s_pos, s_lt⟩, equation, ?_, ?_⟩
    · rw [← Felt.toNat_toWord] at s_pos s_lt
      obtain ⟨w, inverse, w_eq, -⟩ := inverse?_orderWord s_pos s_lt
      rw [Felt.toNat_toWord, involutive] at w_eq
      rw [inverse, ← w_eq, Word.ofNat_toNat]
    · intro publicKey e
      rw [← r_eq, Felt.toNat_toWord] at r_range
      rw [← involutive] at w_lt
      rw [verify?_eq, answerBehind_eq_error_iff,
        firstFault_checks_of_ranges r_range ⟨s_pos, s_lt⟩ hashRange w_lt]

/-- The nonce one under the key one, and two keys under which the attempt fails behind the check of
`r`: the sum vanishes, or the quotient is `2 ^ 251`. -/
theorem ofNonce?_solves_equation_nonce_one :
    let messageHash : Felt := ⟨2, by decide⟩
    let vanishing : Felt :=
      ⟨0x12ff063f4af3a6051c987dbc476acda36ac9aafb334b3065c6d4da575daf671, by decide⟩
    let large : Felt :=
      ⟨0x6efc21e8470e63297d9e713280a0c66b5afbc1489c92d8826730c8a655def0e, by decide⟩
    (∃ sig, ofNonce? Felt.one messageHash 1 = .ok sig ∧
      ∃ accepted, verify? generator messageHash sig = .ok accepted) ∧
    ofNonce? vanishing messageHash 1 = .error (.notInvertible 0 orderWord) ∧
    ofNonce? large messageHash 1 = .error (.outOfRange .signatureW elementBound) := by
  intro messageHash vanishing large
  let gx : Word := 0x1ef15c18599971b7beced415a40f0c7deacfd9b0d1819e03d723d8bc943cfca
  have point : multiple? 1 generator = .ok generator := by
    have once := multiple?_generator 1
    rw [show (1 : Word).toNat = 1 from rfl, one_nsmul, ofGroup_base] at once
    exact once
  have inverse : ∀ {sum w : Nat}, sum * w % order = 1 → w < order →
      1 * orderInverse sum % order = w := by
    intro sum w product lt
    rw [orderInverse_eq_of_mul product lt, Nat.one_mul, Nat.mod_eq_of_lt lt]
  refine ⟨?_, ?_, ?_⟩
  · obtain ⟨r, y, made, signs, -, solves⟩ :=
      ofNonce?_solves_equation Felt.one messageHash 1 (by decide) (by decide)
    cases point.symm.trans made
    have quotient : attemptQuotient Felt.one messageHash 1 gx =
        0x1279aad14f5e40c8ea7c2640dd975e55a71071ed7fd0817496a09cb95f7e4a8 :=
      inverse (by decide) (by decide)
    obtain ⟨sig, signed⟩ := signs.mpr ⟨by decide, by decide, by rw [quotient]; decide⟩
    obtain ⟨-, -, -, -, refuses⟩ := solves sig signed
    refine ⟨sig, signed, ?_⟩
    cases outcome : verify? generator messageHash sig with
    | ok accepted => exact ⟨accepted, rfl⟩
    | error e =>
      obtain ⟨-, unusable⟩ := (refuses generator e).mp outcome
      exact absurd unusable (by decide)
  · obtain ⟨r, y, made, -, faults, -⟩ :=
      ofNonce?_solves_equation vanishing messageHash 1 (by decide) (by decide)
    cases point.symm.trans made
    have vanishes : order ∣ attemptSum vanishing messageHash gx := by decide
    refine (faults _).mpr ?_
    rw [attemptChecks, decide_eq_false (not_not.mpr vanishes)]
    rfl
  · obtain ⟨r, y, made, -, faults, -⟩ :=
      ofNonce?_solves_equation large messageHash 1 (by decide) (by decide)
    cases point.symm.trans made
    have quotient : attemptQuotient large messageHash 1 gx = elementBound :=
      inverse (by decide) (by decide)
    have invertible : ¬ order ∣ attemptSum large messageHash gx := by decide
    refine (faults _).mpr ?_
    rw [attemptChecks, decide_eq_true invertible, quotient]
    rfl

end Signature
end StarkSigning

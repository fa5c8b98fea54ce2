import StarkSigning.Proofs.Signing.Verification

/-!
# StarkSigning.Proofs.Signing.Refusal

Where verification gives no answer. Its arguments pass five checks, and the first that fails is the
error. Inverting `s` is no sixth one: the order is prime, so every number from one up to below it
has an inverse there, which is not zero. Behind the checks every refusal of the circuit, in a
multiplication or in an addition, under the key or under its negation, counts as a mismatch.

* `inverse?_orderWord`: the inverse of `s`, as verification computes it, is that of the prime field.
* `verify?_eq`: the checks in order, then the two attempts.
* `verify?_refusal`: which arguments are refused and with which error.
-/

namespace StarkSigning
namespace Signature

open Curve Point Outcome

/-- The inverse modulo the order, by its representative; zero where there is none. -/
def orderInverse (s : Nat) : Nat :=
  ((s : ZMod order)⁻¹).val

theorem orderInverse_eq_of_mul {s w : Nat} (product : s * w % order = 1) (lt : w < order) :
    orderInverse s = w := by
  have one : (s : ZMod order) * (w : ZMod order) = 1 := by
    rw [← Nat.cast_mul, ← Nat.cast_one, ZMod.natCast_eq_natCast_iff]
    exact product
  rw [orderInverse, inv_eq_of_mul_eq_one_right one, ZMod.val_natCast_of_lt lt]

theorem inverse?_orderWord {s : Word} (pos : 0 < s.toNat) (lt : s.toNat < order) :
    ∃ w, Modular.inverse? s orderWord = .ok w ∧ w.toNat = orderInverse s.toNat ∧
      0 < w.toNat := by
  have coprime : s.toNat.Coprime orderWord.toNat := by
    rw [toNat_orderWord, Nat.coprime_comm, order_prime.coprime_iff_not_dvd]
    exact Nat.not_dvd_of_pos_of_lt pos lt
  obtain ⟨w, inverse, bound, product⟩ :=
    Modular.inverse?_of_coprime (by rw [toNat_orderWord]; decide) coprime
  rw [toNat_orderWord] at bound
  rw [toNat_orderWord] at product
  refine ⟨w, inverse, (orderInverse_eq_of_mul product bound).symm, Nat.pos_of_ne_zero ?_⟩
  intro zero
  rw [zero, Nat.mul_zero, Nat.zero_mod] at product
  cases product

/-! ## The checks -/

/-- A condition on the arguments, with the error that reports its failure. -/
structure Check where
  passes : Bool
  fault : Error

/-- The condition to lie from one up to below the bound. -/
def Check.range (what : Quantity) (value bound : Nat) : Check :=
  ⟨decide (0 < value ∧ value < bound), .outOfRange what value⟩

/-- The conditions on the arguments of verification, in the order of the checks. -/
def checks (publicKey : Point) (messageHash : Felt) (sig : Signature) : List Check :=
  [.range .signatureR sig.r.val elementBound,
   .range .signatureS sig.s.val order,
   .range .messageHash messageHash.val elementBound,
   ⟨!publicKey.isInfinity && publicKey.onCurve, .point .unusablePublicKey⟩,
   ⟨decide (orderInverse sig.s.val < elementBound),
    .outOfRange .signatureW (orderInverse sig.s.val)⟩]

/-- The error of the first condition that fails. -/
def firstFault (conditions : List Check) : Option Error :=
  (conditions.find? fun c => !c.passes).map Check.fault

/-- The answer, unless a condition fails. -/
def answerBehind {α : Type} (conditions : List Check) (answer : α) : Except Error α :=
  match firstFault conditions with
  | some e => .error e
  | none => .ok answer

theorem answerBehind_cons {α : Type} (c : Check) (rest : List Check) (answer : α) :
    answerBehind (c :: rest) answer =
      if c.passes then answerBehind rest answer else .error c.fault := by
  rw [answerBehind, firstFault, List.find?_cons]
  cases c.passes with
  | true => rfl
  | false => rfl

theorem answerBehind_eq_error_iff {α : Type} {conditions : List Check} {answer : α} {e : Error} :
    answerBehind conditions answer = .error e ↔ firstFault conditions = some e := by
  rw [answerBehind]
  cases firstFault conditions with
  | none => simp
  | some e' => simp

theorem exists_firstFault_iff {conditions : List Check} :
    (∃ e, firstFault conditions = some e) ↔ ∃ c ∈ conditions, c.passes = false := by
  rw [← Option.isSome_iff_exists, firstFault, Option.isSome_map, List.find?_isSome]
  simp only [Bool.not_eq_true']

theorem exists_of_firstFault {conditions : List Check} {e : Error}
    (h : firstFault conditions = some e) : ∃ c ∈ conditions, c.fault = e := by
  obtain ⟨c, found, rfl⟩ := Option.map_eq_some_iff.mp h
  exact ⟨c, List.mem_of_find?_eq_some found, rfl⟩

theorem Check.range_passes_eq_false_iff {what : Quantity} {value bound : Nat} :
    (Check.range what value bound).passes = false ↔ value = 0 ∨ bound ≤ value := by
  rw [Check.range, decide_eq_false_iff_not]
  omega

theorem requireBelow_bind {α : Type} (what : Quantity) (value bound : Nat)
    (next : Unit → Except Error α) :
    requireBelow what value bound >>= next =
      if (Check.range what value bound).passes then next ()
      else .error (Check.range what value bound).fault := by
  by_cases inside : 0 < value ∧ value < bound
  · rw [requireBelow_eq_ok_iff.mpr inside, ok_bind, Check.range, decide_eq_true inside, if_pos rfl]
  · have refused : requireBelow what value bound = .error (.outOfRange what value) :=
      requireBelow_eq_error_iff.mpr ⟨by omega, rfl⟩
    rw [refused, error_bind, Check.range, decide_eq_false inside, if_neg Bool.false_ne_true]

theorem matchesKey_eq_true_iff {hash r w : Word} {publicKey : Point} :
    matchesKey hash r w publicKey = true ↔ recomputeX? hash r w publicKey = .ok (some r) := by
  rw [matchesKey]
  cases recomputeX? hash r w publicKey with
  | error e => simp
  | ok x =>
    cases x with
    | none => simp
    | some x => simp

/-- What verification answers behind its checks: whether one of the two attempts recomputes `r`. -/
def attempts (publicKey : Point) (messageHash : Felt) (sig : Signature) : Bool :=
  let matchesFor := matchesKey messageHash.toWord sig.r.toWord (Word.ofNat (orderInverse sig.s.val))
  matchesFor publicKey || matchesFor publicKey.neg

theorem attempts_eq_true_iff {publicKey : Point} {messageHash : Felt} {sig : Signature} :
    attempts publicKey messageHash sig = true ↔ ∃ candidate, SameX publicKey candidate ∧
      recomputeX? messageHash.toWord sig.r.toWord (Word.ofNat (orderInverse sig.s.val)) candidate =
        .ok (some sig.r.toWord) := by
  simp only [attempts, Bool.or_eq_true, matchesKey_eq_true_iff, SameX, or_and_right, exists_or,
    exists_eq_left]

/-- The checks one by one. The inverse of `s` is taken behind that of `s` itself, and so exists. -/
theorem verify?_eq (publicKey : Point) (messageHash : Felt) (sig : Signature) :
    verify? publicKey messageHash sig =
      answerBehind (checks publicKey messageHash sig) (attempts publicKey messageHash sig) := by
  simp only [verify?, requireBelow_bind, checks, answerBehind_cons]
  refine ite_congr rfl (fun _ => ?_) (fun _ => rfl)
  refine ite_congr rfl (fun s_range => ?_) (fun _ => rfl)
  refine ite_congr rfl (fun _ => ?_) (fun _ => rfl)
  obtain ⟨s_pos, s_lt⟩ := of_decide_eq_true s_range
  rw [← Felt.toNat_toWord] at s_pos s_lt
  obtain ⟨w, inverse, w_eq, w_pos⟩ := inverse?_orderWord s_pos s_lt
  rw [Felt.toNat_toWord] at w_eq
  have w_word : Word.ofNat (orderInverse sig.s.val) = w := by
    rw [← w_eq, Word.ofNat_toNat]
  have w_range : (Check.range .signatureW w.toNat elementBound).passes =
      decide (orderInverse sig.s.val < elementBound) := by
    rw [Check.range, w_eq, decide_eq_decide]
    omega
  rw [inverse, ok_bind, w_range, Check.range, attempts, w_word, w_eq]
  cases publicKey.isInfinity <;> cases publicKey.onCurve <;> rfl

/-- Verification refuses its arguments exactly if `r`, `s` or the message hash is out of range, the
key is no finite point of the curve, or the inverse of `s` modulo the order is not below `2 ^ 251`;
the first of these in this order is the error. Otherwise it accepts exactly if the circuit, under
the key or its negation, recomputes `r`: where the circuit refuses, the attempt has failed. -/
theorem verify?_refusal (publicKey : Point) (messageHash : Felt) (sig : Signature) :
    ((∃ e, verify? publicKey messageHash sig = .error e) ↔
      (sig.r.val = 0 ∨ elementBound ≤ sig.r.val) ∨
      (sig.s.val = 0 ∨ order ≤ sig.s.val) ∨
      (messageHash.val = 0 ∨ elementBound ≤ messageHash.val) ∨
      (publicKey = .infinity ∨ publicKey.onCurve = false) ∨
      elementBound ≤ orderInverse sig.s.val) ∧
    (∀ e, verify? publicKey messageHash sig = .error e ↔
      firstFault (checks publicKey messageHash sig) = some e) ∧
    (∀ e, verify? publicKey messageHash sig = .error e →
      e.kind = .outOfRange ∨ e = .point .unusablePublicKey) ∧
    (∀ accepted, verify? publicKey messageHash sig = .ok accepted →
      (accepted = true ↔ ∃ candidate, SameX publicKey candidate ∧
        recomputeX? messageHash.toWord sig.r.toWord (Word.ofNat (orderInverse sig.s.val))
          candidate = .ok (some sig.r.toWord))) := by
  have infinite : publicKey.isInfinity = true ↔ publicKey = .infinity := by
    cases publicKey with
    | infinity => simp [isInfinity]
    | affine x y => simp [isInfinity]
  have errors : ∀ e, verify? publicKey messageHash sig = .error e ↔
      firstFault (checks publicKey messageHash sig) = some e := by
    intro e
    rw [verify?_eq, answerBehind_eq_error_iff]
  refine ⟨?_, errors, ?_, ?_⟩
  · simp only [errors, exists_firstFault_iff, checks, List.mem_cons, List.not_mem_nil, or_false,
      exists_eq_or_imp, exists_eq_left, Check.range_passes_eq_false_iff, decide_eq_false_iff_not,
      Nat.not_lt, Bool.and_eq_false_iff, Bool.not_eq_false', infinite]
  · intro e fails
    obtain ⟨c, member, rfl⟩ := exists_of_firstFault ((errors e).mp fails)
    simp only [checks, List.mem_cons, List.not_mem_nil, or_false] at member
    rcases member with rfl | rfl | rfl | rfl | rfl
    · exact Or.inl rfl
    · exact Or.inl rfl
    · exact Or.inl rfl
    · exact Or.inr rfl
    · exact Or.inl rfl
  · intro accepted answered
    rw [verify?_eq, answerBehind] at answered
    split at answered
    · cases answered
    · cases answered
      exact attempts_eq_true_iff

/-- An `s` whose inverse is `2 ^ 251` is refused behind all other checks. The shift point as a key
passes them, and collides in the first round of the circuit: the answer is no. -/
theorem verify?_refusal_last_check :
    verify? generator Felt.one
        ⟨Felt.one, ⟨0x57d5a5ac3206e50a822e94121802b39300ce4d57d6c1847c5377f2abb0cdaa4, by decide⟩⟩ =
      .error (.outOfRange .signatureW elementBound) ∧
    circuitMultiple? Felt.one.toWord shift shift = .error (.point .circuitCollision) ∧
    verify? shift Felt.one ⟨Felt.one, Felt.one⟩ = .ok false := by
  have large : orderInverse 0x57d5a5ac3206e50a822e94121802b39300ce4d57d6c1847c5377f2abb0cdaa4 =
      elementBound := orderInverse_eq_of_mul (by decide) (by decide)
  have one : orderInverse Felt.one.val = 1 := orderInverse_eq_of_mul (by decide) (by decide)
  have collides : ∀ candidate, SameX shift candidate →
      circuitMultiple? Felt.one.toWord candidate shift = .error (.point .circuitCollision) := by
    rintro candidate (rfl | rfl)
    · rfl
    · rfl
  obtain ⟨-, errors, -, -⟩ := verify?_refusal generator Felt.one
    ⟨Felt.one, ⟨0x57d5a5ac3206e50a822e94121802b39300ce4d57d6c1847c5377f2abb0cdaa4, by decide⟩⟩
  refine ⟨(errors _).mpr ?_, collides _ (Or.inl rfl), ?_⟩
  · rw [checks, large]
    rfl
  · obtain ⟨-, errors, -, accepts⟩ := verify?_refusal shift Felt.one ⟨Felt.one, Felt.one⟩
    have passes : firstFault (checks shift Felt.one ⟨Felt.one, Felt.one⟩) = none := by
      rw [checks, one]
      rfl
    cases outcome : verify? shift Felt.one ⟨Felt.one, Felt.one⟩ with
    | error e =>
      rw [errors, passes] at outcome
      cases outcome
    | ok accepted =>
      cases accepted with
      | false => rfl
      | true =>
        obtain ⟨candidate, same, recomputed⟩ := (accepts true outcome).mp rfl
        simp only [recomputeX?, bind_eq_ok_iff, collides candidate same, reduceCtorEq, false_and,
          exists_false, and_false] at recomputed

end Signature
end StarkSigning

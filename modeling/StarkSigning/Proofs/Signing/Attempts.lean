import StarkSigning.Proofs.Signing.Keys

/-!
# StarkSigning.Proofs.Signing.Attempts

Signing by attempts, with any source of nonces. Attempt number `a` takes the nonce of the seed plus
`a`; an attempt that fails, for whatever reason, only leads to the next one. So the loop gives the
signature of the least attempt that succeeds, and has one failure of its own, that of a spent
budget. Larger budgets and later seeds see the same attempts.

* `toNat_attemptSeed`: the seeds of the attempts do not wrap.
* `firstUsable?_eq_some_iff`, `firstUsable?_eq_none_iff`: what the loop finds.
* `signWith?_eq_ok_iff`, `signWith?_eq_error_iff`: what signing gives behind its range checks.
* `signWith?_mono`, `signWith?_succ_eq_ok_iff`: larger budgets, and the next seed.
* `signWith?_first_usable`: all of it, with the range checks.
-/

namespace StarkSigning
namespace Signature

open Curve Outcome

/-- The seed of an attempt, a sum of words. -/
def attemptSeed (seed : Felt) (attempt : Nat) : Word :=
  seed.toWord + Word.ofNat attempt

/-- One attempt: the signature with the nonce of its seed, if there is one. -/
def attempt? (nonce : Felt → Felt → Word → Word) (privateKey messageHash seed : Felt)
    (attempt : Nat) : Except Error Signature :=
  ofNonce? privateKey messageHash (nonce messageHash privateKey (attemptSeed seed attempt))

/-- The signature is that of the least attempt below the budget that makes one. -/
def FirstSigned (nonce : Felt → Felt → Word → Word) (privateKey messageHash seed : Felt)
    (budget : Nat) (sig : Signature) : Prop :=
  ∃ a < budget, attempt? nonce privateKey messageHash seed a = .ok sig ∧
    ∀ b < a, ∃ e, attempt? nonce privateKey messageHash seed b = .error e

/-! ## Seeds -/

theorem attemptSeed_eq (seed : Felt) (attempt : Nat) :
    attemptSeed seed attempt = Word.ofNat (seed.val + attempt) := by
  simp [attemptSeed, Felt.toWord, Word.ofNat, BitVec.ofNat_add]

theorem toNat_attemptSeed (seed : Felt) {attempt : Nat} (small : attempt < 2 ^ 64) :
    (attemptSeed seed attempt).toNat = seed.val + attempt := by
  have room : fieldPrime + 2 ^ 64 ≤ Word.size := by decide
  have seed_lt := seed.val_lt
  rw [attemptSeed_eq]
  exact Word.toNat_ofNat (by omega)

theorem attemptSeed_succ {seed next : Felt} (h : next.val = seed.val + 1) (attempt : Nat) :
    attemptSeed seed (attempt + 1) = attemptSeed next attempt := by
  rw [attemptSeed_eq, attemptSeed_eq, h]
  congr 1
  omega

/-! ## The loop -/

section Loop

variable {nonce : Nat → Word} {privateKey messageHash : Felt}

/-- Behind a failure at the start, the first success is that of the later outcomes. -/
theorem exists_first_succ_iff (outcome : Nat → Except Error Signature) {e : Error}
    (fails : outcome 0 = .error e) {left : Nat} {sig : Signature} :
    (∃ a < left + 1, outcome a = .ok sig ∧ ∀ b < a, ∃ e, outcome b = .error e) ↔
      ∃ a < left, outcome (a + 1) = .ok sig ∧ ∀ b < a, ∃ e, outcome (b + 1) = .error e := by
  constructor
  · rintro ⟨a, lt, found, earlier⟩
    cases a with
    | zero =>
      rw [fails] at found
      cases found
    | succ a => exact ⟨a, by omega, found, fun b b_lt => earlier (b + 1) (by omega)⟩
  · rintro ⟨a, lt, found, earlier⟩
    refine ⟨a + 1, by omega, found, ?_⟩
    intro b b_lt
    cases b with
    | zero => exact ⟨e, fails⟩
    | succ b => exact earlier b (by omega)

/-- Of the attempts from `start` on, the loop gives the first that makes a signature. -/
theorem firstUsable?_eq_some_iff {left start : Nat} {sig : Signature} :
    firstUsable? nonce privateKey messageHash left start = some sig ↔
      ∃ a < left, ofNonce? privateKey messageHash (nonce (start + a)) = .ok sig ∧
        ∀ b < a, ∃ e, ofNonce? privateKey messageHash (nonce (start + b)) = .error e := by
  induction left generalizing start with
  | zero => simp [firstUsable?]
  | succ left ih =>
    rw [firstUsable?]
    cases here : ofNonce? privateKey messageHash (nonce start) with
    | ok made =>
      constructor
      · intro h
        cases h
        exact ⟨0, by omega, here, fun b lt => absurd lt (Nat.not_lt_zero b)⟩
      · rintro ⟨a, -, found, earlier⟩
        cases a with
        | zero =>
          rw [Nat.add_zero, here] at found
          cases found
          rfl
        | succ a =>
          -- The first attempt succeeds, so no later one is the least.
          obtain ⟨e, fails⟩ := earlier 0 (by omega)
          rw [Nat.add_zero, here] at fails
          cases fails
    | error e =>
      show firstUsable? nonce privateKey messageHash left (start + 1) = some sig ↔ _
      rw [ih, exists_first_succ_iff
        (fun a => ofNonce? privateKey messageHash (nonce (start + a))) here]
      simp only [Nat.add_assoc, Nat.add_comm 1]

theorem firstUsable?_eq_none_iff {left start : Nat} :
    firstUsable? nonce privateKey messageHash left start = none ↔
      ∀ a < left, ∃ e, ofNonce? privateKey messageHash (nonce (start + a)) = .error e := by
  induction left generalizing start with
  | zero => simp [firstUsable?]
  | succ left ih =>
    rw [firstUsable?, Nat.forall_lt_succ_left']
    cases here : ofNonce? privateKey messageHash (nonce start) with
    | ok made => simp
    | error e =>
      show firstUsable? nonce privateKey messageHash left (start + 1) = none ↔ _
      simp [ih, Nat.add_assoc, Nat.add_comm 1]

end Loop

/-! ## Whole runs -/

section Runs

variable {nonce : Felt → Felt → Word → Word} {privateKey messageHash seed : Felt} {budget : Nat}

theorem signWith?_eq (hashRange : 0 < messageHash.val ∧ messageHash.val < elementBound)
    (keyRange : 0 < privateKey.val ∧ privateKey.val < order) :
    signWith? nonce privateKey messageHash seed budget =
      (firstUsable? (fun a => nonce messageHash privateKey (attemptSeed seed a))
        privateKey messageHash budget 0).elim (.error (.nonceExhausted budget)) .ok := by
  have hashPasses : requireBelow .messageHash messageHash.val elementBound = .ok () :=
    requireBelow_eq_ok_iff.mpr hashRange
  have keyPasses : requireBelow .privateKey privateKey.val order = .ok () :=
    requireBelow_eq_ok_iff.mpr keyRange
  rw [signWith?, hashPasses, ok_bind, keyPasses, ok_bind]
  simp only [attemptSeed_eq]
  split
  · rename_i found
    rw [found, Option.elim_some]
  · rename_i spent
    rw [spent, Option.elim_none]

theorem signWith?_of_hash_out_of_range
    (outside : messageHash.val = 0 ∨ elementBound ≤ messageHash.val) :
    signWith? nonce privateKey messageHash seed budget =
      .error (.outOfRange .messageHash messageHash.val) := by
  have refused := requireBelow_eq_error_iff.mpr
    ⟨outside, (rfl : Error.outOfRange .messageHash messageHash.val = _)⟩
  rw [signWith?, refused, error_bind]

theorem signWith?_of_key_out_of_range
    (hashRange : 0 < messageHash.val ∧ messageHash.val < elementBound)
    (outside : privateKey.val = 0 ∨ order ≤ privateKey.val) :
    signWith? nonce privateKey messageHash seed budget =
      .error (.outOfRange .privateKey privateKey.val) := by
  have hashPasses : requireBelow .messageHash messageHash.val elementBound = .ok () :=
    requireBelow_eq_ok_iff.mpr hashRange
  have refused := requireBelow_eq_error_iff.mpr
    ⟨outside, (rfl : Error.outOfRange .privateKey privateKey.val = _)⟩
  rw [signWith?, hashPasses, ok_bind, refused, error_bind]

theorem signWith?_eq_ok_iff (hashRange : 0 < messageHash.val ∧ messageHash.val < elementBound)
    (keyRange : 0 < privateKey.val ∧ privateKey.val < order) {sig : Signature} :
    signWith? nonce privateKey messageHash seed budget = .ok sig ↔
      FirstSigned nonce privateKey messageHash seed budget sig := by
  have found : FirstSigned nonce privateKey messageHash seed budget sig ↔
      firstUsable? (fun a => nonce messageHash privateKey (attemptSeed seed a))
        privateKey messageHash budget 0 = some sig := by
    simp only [firstUsable?_eq_some_iff, Nat.zero_add, FirstSigned, attempt?]
  rw [signWith?_eq hashRange keyRange, found]
  cases firstUsable? (fun a => nonce messageHash privateKey (attemptSeed seed a))
    privateKey messageHash budget 0 with
  | none => simp
  | some made => simp

theorem signWith?_eq_error_iff (hashRange : 0 < messageHash.val ∧ messageHash.val < elementBound)
    (keyRange : 0 < privateKey.val ∧ privateKey.val < order) {e : Error} :
    signWith? nonce privateKey messageHash seed budget = .error e ↔
      e = .nonceExhausted budget ∧
        ∀ a < budget, ∃ cause, attempt? nonce privateKey messageHash seed a = .error cause := by
  have spent : (∀ a < budget, ∃ cause,
        attempt? nonce privateKey messageHash seed a = .error cause) ↔
      firstUsable? (fun a => nonce messageHash privateKey (attemptSeed seed a))
        privateKey messageHash budget 0 = none := by
    simp only [firstUsable?_eq_none_iff, Nat.zero_add, attempt?]
  rw [signWith?_eq hashRange keyRange, spent]
  cases firstUsable? (fun a => nonce messageHash privateKey (attemptSeed seed a))
    privateKey messageHash budget 0 with
  | none => simp [eq_comm]
  | some made => simp

theorem FirstSigned.mono {sig : Signature} {larger : Nat} (le : budget ≤ larger)
    (signed : FirstSigned nonce privateKey messageHash seed budget sig) :
    FirstSigned nonce privateKey messageHash seed larger sig := by
  obtain ⟨a, lt, found, earlier⟩ := signed
  exact ⟨a, by omega, found, earlier⟩

/-- Behind a first attempt that fails, the attempts are those of the next seed. -/
theorem firstSigned_succ_iff {sig : Signature} {next : Felt} {e : Error}
    (rejected : attempt? nonce privateKey messageHash seed 0 = .error e)
    (h : next.val = seed.val + 1) :
    FirstSigned nonce privateKey messageHash seed (budget + 1) sig ↔
      FirstSigned nonce privateKey messageHash next budget sig := by
  have later : ∀ a, attempt? nonce privateKey messageHash seed (a + 1) =
      attempt? nonce privateKey messageHash next a := by
    intro a
    rw [attempt?, attempt?, attemptSeed_succ h]
  rw [FirstSigned, exists_first_succ_iff _ rejected, FirstSigned]
  simp only [later]

/-- The checks come first and do not depend on the budget or the seed. -/
theorem ranges_of_signWith? {sig : Signature}
    (signed : signWith? nonce privateKey messageHash seed budget = .ok sig) :
    (0 < messageHash.val ∧ messageHash.val < elementBound) ∧
      (0 < privateKey.val ∧ privateKey.val < order) := by
  simp only [signWith?, bind_eq_ok_iff, requireBelow_eq_ok_iff] at signed
  obtain ⟨-, hashRange, -, keyRange, -⟩ := signed
  exact ⟨hashRange, keyRange⟩

theorem signWith?_eq_ok_iff_in_range {sig : Signature} :
    signWith? nonce privateKey messageHash seed budget = .ok sig ↔
      ((0 < messageHash.val ∧ messageHash.val < elementBound) ∧
        (0 < privateKey.val ∧ privateKey.val < order)) ∧
        FirstSigned nonce privateKey messageHash seed budget sig := by
  constructor
  · intro signed
    obtain ⟨hashRange, keyRange⟩ := ranges_of_signWith? signed
    exact ⟨⟨hashRange, keyRange⟩, (signWith?_eq_ok_iff hashRange keyRange).mp signed⟩
  · rintro ⟨⟨hashRange, keyRange⟩, signed⟩
    exact (signWith?_eq_ok_iff hashRange keyRange).mpr signed

theorem signWith?_mono {sig : Signature} {larger : Nat} (le : budget ≤ larger)
    (signed : signWith? nonce privateKey messageHash seed budget = .ok sig) :
    signWith? nonce privateKey messageHash seed larger = .ok sig := by
  rw [signWith?_eq_ok_iff_in_range] at signed ⊢
  exact ⟨signed.1, signed.2.mono le⟩

theorem signWith?_succ_eq_ok_iff {sig : Signature} {next : Felt} {e : Error}
    (rejected : attempt? nonce privateKey messageHash seed 0 = .error e)
    (h : next.val = seed.val + 1) :
    signWith? nonce privateKey messageHash seed (budget + 1) = .ok sig ↔
      signWith? nonce privateKey messageHash next budget = .ok sig := by
  rw [signWith?_eq_ok_iff_in_range, signWith?_eq_ok_iff_in_range, firstSigned_succ_iff rejected h]

/-- No failure of an attempt comes out, whatever the ranges. -/
theorem kind_of_signWith?_eq_error {e : Error}
    (fails : signWith? nonce privateKey messageHash seed budget = .error e) :
    e.kind = .outOfRange ∨ e = .nonceExhausted budget := by
  by_cases hashRange : 0 < messageHash.val ∧ messageHash.val < elementBound
  · by_cases keyRange : 0 < privateKey.val ∧ privateKey.val < order
    · exact Or.inr ((signWith?_eq_error_iff hashRange keyRange).mp fails).1
    · rw [signWith?_of_key_out_of_range hashRange (by omega)] at fails
      cases fails
      exact Or.inl rfl
  · rw [signWith?_of_hash_out_of_range (by omega)] at fails
    cases fails
    exact Or.inl rfl

/-- For every source of nonces and every budget that fits 64 bits: a message hash out of range is
refused, then a private key out of range. Otherwise signing gives the signature of the least attempt
below the budget that makes one, attempt `a` with the nonce of the seed plus `a`, and reports the
spent budget exactly if none does; no failure of an attempt comes out. A larger budget keeps every
signature, and behind a first attempt that fails the run is that of the next seed with one attempt
less. -/
theorem signWith?_first_usable (nonce : Felt → Felt → Word → Word)
    (privateKey messageHash seed : Felt) (budget : Nat) (small : budget < 2 ^ 64) :
    (messageHash.val = 0 ∨ elementBound ≤ messageHash.val →
      signWith? nonce privateKey messageHash seed budget =
        .error (.outOfRange .messageHash messageHash.val)) ∧
    (0 < messageHash.val ∧ messageHash.val < elementBound →
      (privateKey.val = 0 ∨ order ≤ privateKey.val →
        signWith? nonce privateKey messageHash seed budget =
          .error (.outOfRange .privateKey privateKey.val)) ∧
      (0 < privateKey.val ∧ privateKey.val < order →
        (∀ sig, signWith? nonce privateKey messageHash seed budget = .ok sig ↔
          FirstSigned nonce privateKey messageHash seed budget sig) ∧
        ∀ e, signWith? nonce privateKey messageHash seed budget = .error e ↔
          e = .nonceExhausted budget ∧ ∀ a < budget, ∃ cause,
            attempt? nonce privateKey messageHash seed a = .error cause)) ∧
    (∀ a < budget, (attemptSeed seed a).toNat = seed.val + a) ∧
    (∀ sig larger, budget ≤ larger →
      signWith? nonce privateKey messageHash seed budget = .ok sig →
      signWith? nonce privateKey messageHash seed larger = .ok sig) ∧
    (∀ cause (next : Felt), attempt? nonce privateKey messageHash seed 0 = .error cause →
      next.val = seed.val + 1 → ∀ sig,
        signWith? nonce privateKey messageHash seed (budget + 1) = .ok sig ↔
          signWith? nonce privateKey messageHash next budget = .ok sig) ∧
    ∀ e, signWith? nonce privateKey messageHash seed budget = .error e →
      e.kind = .outOfRange ∨ e = .nonceExhausted budget := by
  refine ⟨signWith?_of_hash_out_of_range, fun hashRange =>
    ⟨signWith?_of_key_out_of_range hashRange, fun keyRange =>
      ⟨fun sig => signWith?_eq_ok_iff hashRange keyRange,
        fun e => signWith?_eq_error_iff hashRange keyRange⟩⟩, ?_, ?_, ?_, ?_⟩
  · intro a lt
    exact toNat_attemptSeed seed (by omega)
  · intro sig larger le signed
    exact signWith?_mono le signed
  · intro cause next rejected h sig
    exact signWith?_succ_eq_ok_iff rejected h
  · intro e fails
    exact kind_of_signWith?_eq_error fails

/-- The seed itself as the nonce: from seed zero the first attempt fails, since no multiple is
taken, and the second signs. So one attempt does not suffice, two and more do, and from the next seed
one does. A zero message hash is reported before a zero key. -/
theorem signWith?_first_usable_second_attempt :
    let messageHash : Felt := ⟨2, by decide⟩
    let nonce : Felt → Felt → Word → Word := fun _ _ seed => seed
    ∃ sig, FirstSigned nonce Felt.one messageHash Felt.zero 2 sig ∧
      signWith? nonce Felt.one messageHash Felt.zero 1 = .error (.nonceExhausted 1) ∧
      signWith? nonce Felt.one messageHash Felt.zero 64 = .ok sig ∧
      signWith? nonce Felt.one messageHash Felt.one 1 = .ok sig ∧
      signWith? nonce Felt.zero messageHash Felt.zero 1 = .error (.outOfRange .privateKey 0) ∧
      signWith? nonce Felt.zero Felt.zero Felt.zero 1 = .error (.outOfRange .messageHash 0) := by
  intro messageHash nonce
  have made : (attempt? nonce Felt.one messageHash Felt.zero 1).toOption.isSome = true := by
    decide +kernel
  obtain ⟨sig, found⟩ := Option.isSome_iff_exists.mp made
  have second := eq_ok_of_toOption found
  have first : attempt? nonce Felt.one messageHash Felt.zero 0 =
      .error (.point .infiniteNoncePoint) := rfl
  have signed : FirstSigned nonce Felt.one messageHash Felt.zero 2 sig := by
    refine ⟨1, by decide, second, ?_⟩
    intro b lt
    obtain rfl : b = 0 := by omega
    exact ⟨_, first⟩
  obtain ⟨-, ranges, -, more, -, -⟩ :=
    signWith?_first_usable nonce Felt.one messageHash Felt.zero 2 (by decide)
  obtain ⟨-, inRange⟩ := ranges (by decide)
  have two := ((inRange (by decide)).1 sig).mpr signed
  obtain ⟨-, ranges', -, -, restart, -⟩ :=
    signWith?_first_usable nonce Felt.one messageHash Felt.zero 1 (by decide)
  obtain ⟨-, inRange'⟩ := ranges' (by decide)
  obtain ⟨-, keyRanges, -⟩ :=
    signWith?_first_usable nonce Felt.zero messageHash Felt.zero 1 (by decide)
  obtain ⟨refused, -⟩ := signWith?_first_usable nonce Felt.zero Felt.zero Felt.zero 1 (by decide)
  refine ⟨sig, signed, ?_, more sig 64 (by decide) two,
    (restart _ Felt.one first rfl sig).mp two, (keyRanges (by decide)).1 (Or.inl rfl),
    refused (Or.inl rfl)⟩
  refine ((inRange' (by decide)).2 _).mpr ⟨rfl, ?_⟩
  intro a lt
  obtain rfl : a = 0 := by omega
  exact ⟨_, first⟩

end Runs

end Signature
end StarkSigning

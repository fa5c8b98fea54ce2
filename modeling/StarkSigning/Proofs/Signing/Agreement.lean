import StarkSigning.Proofs.Signing.Verification

/-!
# StarkSigning.Proofs.Signing.Agreement

What signing makes, verification under the signer's public key accepts. Signing stores the inverse
of `w = k / (r * key + hash)` and verification inverts it again, which gives `w` back
(`Modular.inverse?_symm`); `w` times the point of the equation is then the nonce times the
generator, whose `x` is `r`.

* `SignedBy`: the numbers of one attempt and the relations between them.
* `verify?_of_signWith?`: verification gives an answer on every signature made, and accepts it
  if the circuit completes.
-/

namespace StarkSigning

theorem Modular.inverse?_symm {a b modulus : Word} (h : inverse? a modulus = .ok b)
    (reduced : a.toNat < modulus.toNat) : inverse? b modulus = .ok a := by
  obtain ⟨two_le, _, product⟩ := inverse?_eq_ok_iff.mp h
  rw [Nat.mul_comm] at product
  exact inverse?_eq_ok_iff.mpr ⟨two_le, reduced, product⟩

open Curve Point Outcome

namespace Signature

/-- The numbers `r`, `w` and `s` of one attempt with the nonce `k`. -/
structure SignedBy (privateKey messageHash : Felt) (k : Word) (sig : Signature) (w : Word) :
    Prop where
  nonce_x : (ofGroup (k.toNat • base)).x? = some sig.r.toWord
  r_pos : 0 < sig.r.val
  r_lt : sig.r.val < elementBound
  quotient : w.toNat * (sig.r.val * privateKey.val + messageHash.val) ≡ k.toNat [MOD order]
  w_reduced : w.toNat < order
  w_pos : 0 < w.toNat
  w_lt : w.toNat < elementBound
  inverse : Modular.inverse? w orderWord = .ok sig.s.toWord

theorem signedBy_of_ofNonce? {privateKey messageHash : Felt} {k : Word} {sig : Signature}
    (h : ofNonce? privateKey messageHash k = .ok sig) :
    ∃ w, SignedBy privateKey messageHash k sig w := by
  rw [ofNonce?, multiple?_generator, ok_bind] at h
  cases point : ofGroup (k.toNat • base) with
  | infinity =>
    rw [point] at h
    cases h
  | affine r y =>
    simp only [point, bind_eq_ok_iff, requireBelow_eq_ok_iff] at h
    obtain ⟨_, ⟨r_pos, r_lt⟩, w, quotient, _, ⟨w_pos, w_lt⟩, s, inverse, rFelt, hr, sFelt, hs,
      result⟩ := h
    cases result
    obtain ⟨w_reduced, product⟩ := Modular.div?_eq_ok quotient
    have order_pos : 0 < orderWord.toNat := by
      rw [toNat_orderWord]
      decide
    rw [Modular.toNat_add order_pos, Modular.toNat_mul order_pos, Felt.toNat_toWord,
      Felt.toNat_toWord, toNat_orderWord] at product
    rw [toNat_orderWord] at w_reduced
    rw [← Word.toFelt?_eq_ok hr, Felt.toNat_toWord] at r_pos r_lt product
    rw [← Word.toFelt?_eq_ok hs] at inverse
    rw [← Word.toFelt?_eq_ok hr] at point
    refine ⟨w, ⟨?_, r_pos, r_lt, ?_, w_reduced, w_pos, w_lt, inverse⟩⟩
    · rw [point, x?]
    · refine Nat.ModEq.trans (Nat.ModEq.mul_left _ ?_) product
      exact ((Nat.mod_modEq _ _).add_right _ |>.symm).trans (Nat.mod_modEq _ _).symm

theorem ofNonce?_of_firstUsable? {nonce : Nat → Word} {privateKey messageHash : Felt}
    {left attempt : Nat} {sig : Signature}
    (h : firstUsable? nonce privateKey messageHash left attempt = some sig) :
    ∃ k, ofNonce? privateKey messageHash k = .ok sig := by
  induction left generalizing attempt with
  | zero => cases h
  | succ left ih =>
    rw [firstUsable?] at h
    split at h
    · rename_i found
      cases h
      exact ⟨_, found⟩
    · exact ih h

theorem ofNonce?_of_signWith? {nonce : Felt → Felt → Word → Word}
    {privateKey messageHash seed : Felt} {budget : Nat} {sig : Signature}
    (h : signWith? nonce privateKey messageHash seed budget = .ok sig) :
    (0 < messageHash.val ∧ messageHash.val < elementBound) ∧
      (0 < privateKey.val ∧ privateKey.val < order) ∧
      ∃ k, ofNonce? privateKey messageHash k = .ok sig := by
  simp only [signWith?, bind_eq_ok_iff, requireBelow_eq_ok_iff] at h
  obtain ⟨_, hashRange, _, keyRange, h⟩ := h
  refine ⟨hashRange, keyRange, ?_⟩
  split at h
  · rename_i found
    cases h
    exact ofNonce?_of_firstUsable? found
  · cases h

/-- At the signer's public key the equation's point is the nonce's. -/
theorem SignedBy.equationElement_eq {privateKey messageHash : Felt} {k w : Word} {sig : Signature}
    (signed : SignedBy privateKey messageHash k sig w) :
    equationElement messageHash.toWord sig.r.toWord w (privateKey.val • base) =
      k.toNat • base := by
  have combined : equationElement messageHash.toWord sig.r.toWord w (privateKey.val • base) =
      (w.toNat * (sig.r.val * privateKey.val + messageHash.val)) • base := by
    simp only [equationElement, Felt.toNat_toWord, ← mul_nsmul', ← add_nsmul]
    rw [Nat.add_comm]
  rw [combined, smul_base_eq_iff]
  exact signed.quotient

theorem SignedBy.wellFormed {privateKey messageHash : Felt} {k w : Word} {sig : Signature}
    (signed : SignedBy privateKey messageHash k sig w)
    (hashRange : 0 < messageHash.val ∧ messageHash.val < elementBound)
    (keyRange : 0 < privateKey.val ∧ privateKey.val < order) :
    WellFormed (ofGroup (privateKey.val • base)) messageHash sig w := by
  have reduced : w.toNat < orderWord.toNat := by
    rw [toNat_orderWord]
    exact signed.w_reduced
  have inverse := Modular.inverse?_symm signed.inverse reduced
  obtain ⟨_, s_lt, product⟩ := Modular.inverse?_eq_ok_iff.mp signed.inverse
  rw [Felt.toNat_toWord] at s_lt product
  have s_pos : 0 < sig.s.val := by
    rcases Nat.eq_zero_or_pos sig.s.val with zero | pos
    · rw [zero, Nat.mul_zero, Nat.zero_mod] at product
      cases product
    · exact pos
  have finite : (ofGroup (privateKey.val • base)).isInfinity = false :=
    isInfinity_ofGroup_eq_false_iff.mpr (smul_base_ne_zero keyRange.1 keyRange.2)
  rw [toNat_orderWord] at s_lt
  exact ⟨signed.r_pos, signed.r_lt, s_pos, s_lt, hashRange.1, hashRange.2, finite,
    onCurve_ofGroup _, inverse, signed.w_pos, signed.w_lt⟩

/-- Whatever the source of the nonces, verification under the signer's public key gives an answer
on every signature made, and accepts it if the circuit completes under that key. -/
theorem verify?_of_signWith? {nonce : Felt → Felt → Word → Word}
    {privateKey messageHash seed : Felt} {budget : Nat} {sig : Signature}
    (signed : signWith? nonce privateKey messageHash seed budget = .ok sig) :
    ∃ publicKey w, publicKey? privateKey = .ok publicKey ∧
      Modular.inverse? sig.s.toWord orderWord = .ok w ∧
      (∃ accepted, verify? publicKey messageHash sig = .ok accepted) ∧
      (CircuitCompletes messageHash.toWord sig.r.toWord w publicKey →
        verify? publicKey messageHash sig = .ok true) := by
  obtain ⟨hashRange, keyRange, k, attempt⟩ := ofNonce?_of_signWith? signed
  obtain ⟨w, numbers⟩ := signedBy_of_ofNonce? attempt
  have wf := numbers.wellFormed hashRange keyRange
  refine ⟨ofGroup (privateKey.val • base), w, publicKey?_eq_ok keyRange.1 keyRange.2, wf.inverse,
    ⟨_, verify?_eq_ok_iff.mpr ⟨w, wf, rfl⟩⟩, ?_⟩
  intro completes
  refine verify?_eq_ok_iff.mpr ⟨w, wf, ?_⟩
  rw [matchesKey_ofGroup_iff.mpr ⟨completes, ?_⟩, Bool.true_or]
  rw [numbers.equationElement_eq]
  exact numbers.nonce_x

/-- Nonces taken from the seed itself: the first, zero, signs nothing, and the second is one. The
private key is one too, so that `r` is the `x` of the generator and `s` is the hash more. -/
theorem verify?_of_signWith?_second_attempt :
    let messageHash : Felt := ⟨2, by decide⟩
    let sig : Signature :=
      ⟨⟨0x1ef15c18599971b7beced415a40f0c7deacfd9b0d1819e03d723d8bc943cfca, by decide⟩,
        ⟨0x1ef15c18599971b7beced415a40f0c7deacfd9b0d1819e03d723d8bc943cfcc, by decide⟩⟩
    signWith? (fun _ _ seed => seed) Felt.one messageHash Felt.zero 2 = .ok sig ∧
      ∃ publicKey, publicKey? Felt.one = .ok publicKey ∧
        verify? publicKey messageHash sig = .ok true := by
  intro messageHash sig
  have signed : signWith? (fun _ _ seed => seed) Felt.one messageHash Felt.zero 2 = .ok sig :=
    eq_ok_of_toOption (by decide +kernel)
  obtain ⟨publicKey, w, derived, inverse, _, accepts⟩ := verify?_of_signWith? signed
  refine ⟨signed, publicKey, derived, accepts ?_⟩
  have key_eq : publicKey = ofGroup base := by
    rw [publicKey?_eq_ok (by decide) (by decide), Felt.one, one_nsmul] at derived
    exact (Except.ok.inj derived).symm
  have w_eq : Modular.inverse? sig.s.toWord orderWord =
      .ok 0x1279aad14f5e40c8ea7c2640dd975e55a71071ed7fd0817496a09cb95f7e4a8 :=
    eq_ok_of_toOption (by decide +kernel)
  cases inverse.symm.trans w_eq
  have wf : WellFormed (ofGroup base) messageHash sig
      0x1279aad14f5e40c8ea7c2640dd975e55a71071ed7fd0817496a09cb95f7e4a8 := by
    rw [ofGroup_base]
    exact ⟨by decide, by decide, by decide, by decide, by decide, by decide, rfl,
      rfl, w_eq, by decide, by decide⟩
  rw [key_eq]
  exact (verify?_of_runEquation? represents_generator wf (by decide +kernel)).1

end Signature
end StarkSigning

import StarkSigning.Proofs.Signing.Keys
import StarkSigning.Signing.Verification

/-!
# StarkSigning.Proofs.Signing.Verification

Verification decides the equation of the signature scheme. The shifts that keep the circuit away
from infinity cancel: the first product starts at minus the shift and the second at the shift, the
third at the shift again, which the last addition takes off. What is left is the point of the
equation, `w * (hash * generator + r * key)`, which `equationPoint?` computes without shifts.

* `verify?_eq_ok_iff`: verification gives an answer exactly on well-formed arguments.
* `recomputeX?_ofGroup_iff`: a circuit that completes reads the `x` of the point of the equation.
* `verify?_decides_equation`: the answer is the equation's, for the key or its negation, apart
  from refusals of the circuit.
-/

namespace StarkSigning

namespace Signature

open Curve Point Outcome

/-- The arguments on which verification gives an answer, with the inverse `w` of `s` modulo the
order. -/
structure WellFormed (publicKey : Point) (messageHash : Felt) (sig : Signature) (w : Word) :
    Prop where
  r_pos : 0 < sig.r.val
  r_lt : sig.r.val < elementBound
  s_pos : 0 < sig.s.val
  s_lt : sig.s.val < order
  hash_pos : 0 < messageHash.val
  hash_lt : messageHash.val < elementBound
  finite : publicKey.isInfinity = false
  onCurve : publicKey.onCurve = true
  inverse : Modular.inverse? sig.s.toWord orderWord = .ok w
  w_pos : 0 < w.toNat
  w_lt : w.toNat < elementBound

theorem verify?_eq_ok_iff {publicKey : Point} {messageHash : Felt} {sig : Signature}
    {accepted : Bool} :
    verify? publicKey messageHash sig = .ok accepted ↔
      ∃ w, WellFormed publicKey messageHash sig w ∧
        accepted = (matchesKey messageHash.toWord sig.r.toWord w publicKey ||
          matchesKey messageHash.toWord sig.r.toWord w publicKey.neg) := by
  simp only [verify?, bind_eq_ok_iff, requireBelow_eq_ok_iff]
  constructor
  · rintro ⟨_, ⟨r_pos, r_lt⟩, _, ⟨s_pos, s_lt⟩, _, ⟨hash_pos, hash_lt⟩, rest⟩
    split at rest
    · rw [error_bind] at rest
      cases rest
    · rename_i usable
      obtain ⟨w, inverse, rest⟩ := bind_eq_ok_iff.mp rest
      obtain ⟨_, range, answer⟩ := bind_eq_ok_iff.mp rest
      obtain ⟨w_pos, w_lt⟩ := requireBelow_eq_ok_iff.mp range
      rw [Bool.or_eq_true, not_or, Bool.not_eq_true, Bool.not_eq_true', Bool.not_eq_false] at usable
      cases answer
      exact ⟨w, ⟨r_pos, r_lt, s_pos, s_lt, hash_pos, hash_lt, usable.1, usable.2, inverse, w_pos,
        w_lt⟩, rfl⟩
  · rintro ⟨w, wf, rfl⟩
    refine ⟨(), ⟨wf.r_pos, wf.r_lt⟩, (), ⟨wf.s_pos, wf.s_lt⟩, (), ⟨wf.hash_pos, wf.hash_lt⟩, ?_⟩
    rw [wf.finite, wf.onCurve, wf.inverse, if_neg (by decide), ok_bind, bind_eq_ok_iff]
    exact ⟨(), requireBelow_eq_ok_iff.mpr ⟨wf.w_pos, wf.w_lt⟩, rfl⟩

/-- The three fixed-length multiplications of verification under this key all give a point. -/
def CircuitCompletes (hash r w : Word) (publicKey : Point) : Prop :=
  ∃ hashPart keyPart,
    circuitMultiple? hash generator minusShift = .ok hashPart ∧
    circuitMultiple? r publicKey shift = .ok keyPart ∧
    ∀ sum, hashPart.add? keyPart = .ok sum → ∃ shifted, circuitMultiple? w sum shift = .ok shifted

/-- The point of the equation, by plain multiplications. -/
def equationPoint? (hash r w : Word) (publicKey : Point) : Except Error Point := do
  let hashPart ← multiple? hash generator
  let keyPart ← multiple? r publicKey
  let sum ← hashPart.add? keyPart
  multiple? w sum

def equationElement (hash r w : Word) (g : Curve.Group) : Curve.Group :=
  w.toNat • (hash.toNat • base + r.toNat • g)

theorem equationPoint?_ofGroup (hash r w : Word) (g : Curve.Group) :
    equationPoint? hash r w (ofGroup g) = .ok (ofGroup (equationElement hash r w g)) := by
  simp only [equationPoint?, ← ofGroup_base, multiple?_ofGroup, ok_bind, add?_ofGroup,
    equationElement]

theorem hashPart_eq {hash : Word} {p : Point}
    (h : circuitMultiple? hash generator minusShift = .ok p) :
    p = ofGroup (-shiftElement + hash.toNat • base) := by
  rw [← ofGroup_base, ← ofGroup_neg_shiftElement] at h
  exact circuitMultiple?_ofGroup h

theorem shifted_eq {scalar : Word} {g : Curve.Group} {p : Point}
    (h : circuitMultiple? scalar (ofGroup g) shift = .ok p) :
    p = ofGroup (shiftElement + scalar.toNat • g) := by
  rw [← ofGroup_shiftElement] at h
  exact circuitMultiple?_ofGroup h

/-- The first two shifts cancel in the sum of the products. -/
theorem sum_eq {hash r : Word} {g : Curve.Group} {hashPart keyPart : Point}
    (hHash : circuitMultiple? hash generator minusShift = .ok hashPart)
    (hKey : circuitMultiple? r (ofGroup g) shift = .ok keyPart) :
    hashPart.add? keyPart = .ok (ofGroup (hash.toNat • base + r.toNat • g)) := by
  rw [hashPart_eq hHash, shifted_eq hKey, add?_ofGroup]
  congr 2
  abel

theorem add?_minusShift (g : Curve.Group) :
    (ofGroup (shiftElement + g)).add? minusShift = .ok (ofGroup g) := by
  rw [← ofGroup_neg_shiftElement, add?_ofGroup, add_neg_cancel_comm]

theorem recomputeX?_ofGroup_iff {hash r w : Word} {g : Curve.Group} {x : Option Word} :
    recomputeX? hash r w (ofGroup g) = .ok x ↔
      CircuitCompletes hash r w (ofGroup g) ∧ x = (ofGroup (equationElement hash r w g)).x? := by
  simp only [recomputeX?, bind_eq_ok_iff]
  constructor
  · rintro ⟨hashPart, hHash, keyPart, hKey, sum, hSum, shifted, hShifted, last, hLast, answer⟩
    have sum_ok := sum_eq hHash hKey
    cases hSum.symm.trans sum_ok
    rw [shifted_eq hShifted, add?_minusShift] at hLast
    cases hLast
    cases answer
    refine ⟨⟨hashPart, keyPart, hHash, hKey, ?_⟩, rfl⟩
    intro sum hSum
    cases hSum.symm.trans sum_ok
    exact ⟨shifted, hShifted⟩
  · rintro ⟨⟨hashPart, keyPart, hHash, hKey, completes⟩, rfl⟩
    obtain ⟨shifted, hShifted⟩ := completes _ (sum_eq hHash hKey)
    refine ⟨hashPart, hHash, keyPart, hKey, _, sum_eq hHash hKey, shifted, hShifted, ?_⟩
    rw [shifted_eq hShifted, add?_minusShift]
    exact ⟨_, rfl, rfl⟩

theorem matchesKey_ofGroup_iff {hash r w : Word} {g : Curve.Group} :
    matchesKey hash r w (ofGroup g) = true ↔
      CircuitCompletes hash r w (ofGroup g) ∧
        (ofGroup (equationElement hash r w g)).x? = some r := by
  rw [matchesKey]
  cases found : recomputeX? hash r w (ofGroup g) with
  | error e =>
    constructor
    · intro h; cases h
    · rintro ⟨completes, _⟩
      have recomputed := recomputeX?_ofGroup_iff.mpr ⟨completes, rfl⟩
      rw [found] at recomputed
      cases recomputed
  | ok x =>
    obtain ⟨completes, rfl⟩ := recomputeX?_ofGroup_iff.mp found
    cases (ofGroup (equationElement hash r w g)).x? with
    | none => simp only [Bool.false_eq_true, reduceCtorEq, and_false]
    | some x => simp only [decide_eq_true_eq, completes, true_and, Option.some.injEq]

/-- The point of the equation by ladders on weighted points, with the shifts of the circuit. -/
def runEquation? (hash r w : Word) (key : Weighted) : Option Weighted :=
  ((Weighted.ofPoint minusShift).ladder? (.ofPoint generator)
      (lowBits hash.toNat circuitBits)).bind fun hashPart =>
    ((Weighted.ofPoint shift).ladder? key (lowBits r.toNat circuitBits)).bind fun keyPart =>
      if hashPart.gap keyPart = 0 then none
      else
        ((Weighted.ofPoint shift).ladder? (hashPart.add keyPart)
            (lowBits w.toNat circuitBits)).bind fun shifted =>
          if shifted.gap (.ofPoint minusShift) = 0 then none
          else some (shifted.add (.ofPoint minusShift))

theorem circuit_scalar {w : Word} (pos : 0 < w.toNat) (lt : w.toNat < elementBound) :
    w ≠ 0 ∧ w.toNat < 2 ^ circuitBits := by
  refine ⟨?_, lt⟩
  rintro rfl
  exact absurd pos (by decide)

theorem WellFormed.circuit_scalars {publicKey : Point} {messageHash : Felt} {sig : Signature}
    {w : Word} (wf : WellFormed publicKey messageHash sig w) :
    (messageHash.toWord ≠ 0 ∧ messageHash.toWord.toNat < 2 ^ circuitBits) ∧
      (sig.r.toWord ≠ 0 ∧ sig.r.toWord.toNat < 2 ^ circuitBits) ∧
      (w ≠ 0 ∧ w.toNat < 2 ^ circuitBits) := by
  refine ⟨circuit_scalar ?_ ?_, circuit_scalar ?_ ?_, circuit_scalar wf.w_pos wf.w_lt⟩
  · rw [Felt.toNat_toWord]; exact wf.hash_pos
  · rw [Felt.toNat_toWord]; exact wf.hash_lt
  · rw [Felt.toNat_toWord]; exact wf.r_pos
  · rw [Felt.toNat_toWord]; exact wf.r_lt

theorem circuitCompletes_of_runEquation? {messageHash : Felt} {sig : Signature} {w : Word}
    {key last : Weighted} {g : Curve.Group} (hk : Weighted.Represents key g)
    (wf : WellFormed (ofGroup g) messageHash sig w)
    (run : runEquation? messageHash.toWord sig.r.toWord w key = some last) :
    CircuitCompletes messageHash.toWord sig.r.toWord w (ofGroup g) ∧
      Weighted.Represents last (equationElement messageHash.toWord sig.r.toWord w g) := by
  obtain ⟨hash_range, r_range, w_range⟩ := wf.circuit_scalars
  obtain ⟨hashPart, first, run⟩ := Option.bind_eq_some_iff.mp run
  obtain ⟨keyPart, second, run⟩ := Option.bind_eq_some_iff.mp run
  split at run
  · cases run
  · rename_i apart
    obtain ⟨shifted, third, run⟩ := Option.bind_eq_some_iff.mp run
    split at run
    · cases run
    · rename_i apart'
      cases run
      obtain ⟨hHash, hashPart_ok⟩ :=
        represents_minusShift.circuitMultiple represents_generator hash_range first
      obtain ⟨hKey, keyPart_ok⟩ := represents_shift.circuitMultiple hk r_range second
      obtain ⟨hShifted, shifted_ok⟩ :=
        represents_shift.circuitMultiple (hHash.add hKey apart) w_range third
      have sum : -shiftElement + messageHash.toWord.toNat • base +
          (shiftElement + sig.r.toWord.toNat • g) =
          messageHash.toWord.toNat • base + sig.r.toWord.toNat • g := by
        abel
      rw [sum] at hShifted shifted_ok
      have last := hShifted.add represents_minusShift apart'
      rw [ofGroup_base, ofGroup_neg_shiftElement] at hashPart_ok
      rw [ofGroup_shiftElement] at keyPart_ok shifted_ok
      refine ⟨⟨_, _, hashPart_ok, keyPart_ok, ?_⟩, ?_⟩
      · intro sum' hSum
        cases hSum.symm.trans (sum_eq hashPart_ok keyPart_ok)
        exact ⟨_, shifted_ok⟩
      · rw [add_neg_cancel_comm] at last
        exact last

theorem matchesKey_of_runEquation? {messageHash : Felt} {sig : Signature} {w : Word}
    {key : Weighted} {g : Curve.Group} (hk : Weighted.Represents key g)
    (wf : WellFormed (ofGroup g) messageHash sig w)
    (run : ((runEquation? messageHash.toWord sig.r.toWord w key).any fun last =>
      last.x?.toOption == some sig.r.toWord) = true) :
    CircuitCompletes messageHash.toWord sig.r.toWord w (ofGroup g) ∧
      matchesKey messageHash.toWord sig.r.toWord w (ofGroup g) = true := by
  obtain ⟨last, run, x_eq⟩ := (Option.any_eq_true _ _).mp run
  obtain ⟨completes, hLast⟩ := circuitCompletes_of_runEquation? hk wf run
  have x_ok := hLast.x?_eq (eq_ok_of_toOption (beq_iff_eq.mp x_eq))
  exact ⟨completes, matchesKey_ofGroup_iff.mpr ⟨completes, x_ok⟩⟩

theorem verify?_of_runEquation? {messageHash : Felt} {sig : Signature} {w : Word} {key : Weighted}
    {g : Curve.Group} (hk : Weighted.Represents key g)
    (wf : WellFormed (ofGroup g) messageHash sig w)
    (run : ((runEquation? messageHash.toWord sig.r.toWord w key).any fun last =>
      last.x?.toOption == some sig.r.toWord) = true) :
    CircuitCompletes messageHash.toWord sig.r.toWord w (ofGroup g) ∧
      verify? (ofGroup g) messageHash sig = .ok true := by
  obtain ⟨completes, matching⟩ := matchesKey_of_runEquation? hk wf run
  refine ⟨completes, verify?_eq_ok_iff.mpr ⟨w, wf, ?_⟩⟩
  rw [matching, Bool.true_or]

/-- The key or its negation, which have one `x`. -/
def SameX (publicKey candidate : Point) : Prop :=
  candidate = publicKey ∨ candidate = publicKey.neg

/-- For an accepted key, an answer of verification is that of the equation `x = r` at the key or
its negation. A refusal of the circuit under both counts as an answer too, a negative one. -/
theorem verify?_decides_equation {x y : Word} {publicKey : Point} {messageHash : Felt}
    {sig : Signature} {accepted : Bool} (key : ofCoordinates? x y = .ok publicKey)
    (verified : verify? publicKey messageHash sig = .ok accepted) :
    ∃ w : Word, w.toNat < order ∧ sig.s.val * w.toNat % order = 1 ∧
      (accepted = true → ∃ candidate p, SameX publicKey candidate ∧
        equationPoint? messageHash.toWord sig.r.toWord w candidate = .ok p ∧
        p.x? = some sig.r.toWord) ∧
      (accepted = false → ∀ candidate, SameX publicKey candidate →
        ¬ CircuitCompletes messageHash.toWord sig.r.toWord w candidate ∨
        ∃ p, equationPoint? messageHash.toWord sig.r.toWord w candidate = .ok p ∧
          p.x? ≠ some sig.r.toWord) := by
  obtain ⟨g, -, rfl⟩ := exists_ofGroup_of_ofCoordinates? key
  obtain ⟨w, wf, rfl⟩ := verify?_eq_ok_iff.mp verified
  obtain ⟨-, bound, product⟩ := Modular.inverse?_eq_ok_iff.mp wf.inverse
  rw [toNat_orderWord, Felt.toNat_toWord] at product
  rw [toNat_orderWord] at bound
  rw [neg_ofGroup]
  refine ⟨w, bound, product, ?_, ?_⟩
  · intro accepted
    rw [Bool.or_eq_true, matchesKey_ofGroup_iff, matchesKey_ofGroup_iff] at accepted
    rcases accepted with ⟨_, equal⟩ | ⟨_, equal⟩
    · exact ⟨_, _, Or.inl rfl, equationPoint?_ofGroup _ _ _ g, equal⟩
    · exact ⟨_, _, Or.inr (neg_ofGroup g).symm, equationPoint?_ofGroup _ _ _ (-g), equal⟩
  · intro rejected candidate same
    rw [Bool.or_eq_false_iff, ← Bool.not_eq_true, ← Bool.not_eq_true, matchesKey_ofGroup_iff,
      matchesKey_ofGroup_iff, not_and_or, not_and_or] at rejected
    rcases same with rfl | rfl
    · exact rejected.1.imp id fun other => ⟨_, equationPoint?_ofGroup _ _ _ g, other⟩
    · rw [neg_ofGroup]
      exact rejected.2.imp id fun other => ⟨_, equationPoint?_ofGroup _ _ _ (-g), other⟩

/-- A signature over two under the private key one, whose public key is the generator. -/
theorem verify?_decides_equation_generator :
    let messageHash : Felt := ⟨2, by decide⟩
    let sig : Signature :=
      ⟨⟨0x411494b501a98abd8262b0da1351e17899a0c4ef23dd2f96fec5ba847310b20, by decide⟩,
        ⟨0x405c3191ab3883ef2b763af35bc5f5d15b3b4e99461d70e84c654a351a7c81b, by decide⟩⟩
    ∃ x y, ofCoordinates? x y = .ok generator ∧
      verify? generator messageHash sig = .ok true ∧
      ∃ w : Word, w.toNat < order ∧ sig.s.val * w.toNat % order = 1 ∧
        ∃ candidate p, SameX generator candidate ∧
          equationPoint? messageHash.toWord sig.r.toWord w candidate = .ok p ∧
          p.x? = some sig.r.toWord := by
  intro messageHash sig
  have key : ofCoordinates? 0x1ef15c18599971b7beced415a40f0c7deacfd9b0d1819e03d723d8bc943cfca
      0x5668060aa49730b7be4801df46ec62de53ecd11abe43a32873000c36e8dc1f = .ok generator :=
    eq_ok_of_toOption (by decide +kernel)
  have wf : WellFormed (ofGroup base) messageHash sig
      0x1ce0310e48aa17f713cbd8f8acc5a88703a359d2ef27d33ef95b8cfce4bcc91 := by
    rw [ofGroup_base]
    exact ⟨by decide, by decide, by decide, by decide, by decide, by decide, rfl,
      rfl, eq_ok_of_toOption (by decide +kernel), by decide, by decide⟩
  obtain ⟨_, verified⟩ := verify?_of_runEquation? represents_generator wf (by decide +kernel)
  rw [ofGroup_base] at verified
  obtain ⟨w, bound, product, matching, _⟩ := verify?_decides_equation key verified
  exact ⟨_, _, key, verified, w, bound, product, matching rfl⟩

end Signature
end StarkSigning

import StarkSigning.Proofs.Curve.Generator
import StarkSigning.Proofs.Curve.Laws
import StarkSigning.Proofs.Outcome

/-!
# StarkSigning.Proofs.Curve.Repeated

Multiplication by binary digits is repeated addition. The digits of the scalar write how many
copies of the point a ladder adds, so the plain method gives what adding the point that often to
infinity gives, and its results obey the laws of multiples in an abelian group. Multiples of the
generator repeat with the order of the curve, and not before.

* `ladderToLead?_eq`: the doubling behind the leading digit has no effect, on any points.
* `multiple?_eq_repeatedSum?`: the plain method adds the point as often as the scalar says.
* `multiple?_add`, `multiple?_mul`: multiples by sums and products of scalars.
* `multiple?_generator_eq_iff`, `multiple?_order_sub`: scalars modulo the order.
* `multiple?_isRepeatedSum`: these laws together.
-/

namespace StarkSigning
namespace Point

open Curve Outcome

/-- Infinity and so many copies of the point, added one after another. -/
def repeatedSum? (p : Point) : Nat → Except Error Point
  | 0 => .ok infinity
  | n + 1 => do
    let sum ← repeatedSum? p n
    sum.add? p

/-- As `ladder?`, and the base is not doubled behind the last digit. -/
def ladderToLead? (sum base : Point) : List Bool → Except Error Point
  | [] => .ok sum
  | bit :: rest =>
    match if bit then sum.add? base else .ok sum with
    | .error e => .error e
    | .ok next =>
      if rest.isEmpty then .ok next
      else
        match base.double? with
        | .error e => .error e
        | .ok double => ladderToLead? next double rest

theorem exists_double?_eq_ok (p : Point) : ∃ q, p.double? = .ok q := by
  cases p with
  | infinity => exact ⟨infinity, rfl⟩
  | affine x y => exact ⟨_, tangent?_eq x y⟩

/-- A doubling never fails, so one more at the end, unused, changes nothing. -/
theorem ladderToLead?_eq (sum base : Point) (bits : List Bool) :
    ladderToLead? sum base bits = ladder? sum base bits := by
  induction bits generalizing sum base with
  | nil => rfl
  | cons bit rest ih =>
    obtain ⟨double, doubled⟩ := exists_double?_eq_ok base
    rw [ladderToLead?, ladder?, doubled]
    cases if bit then sum.add? base else .ok sum with
    | error e => rfl
    | ok next =>
      cases rest with
      | nil => rfl
      | cons bit' rest => exact ih next double

theorem repeatedSum?_ofGroup (g : Curve.Group) (n : Nat) :
    repeatedSum? (ofGroup g) n = .ok (ofGroup (n • g)) := by
  induction n with
  | zero => rw [repeatedSum?, zero_nsmul, ofGroup_zero]
  | succ n ih => rw [repeatedSum?, ih, ok_bind, add?_ofGroup, succ_nsmul]

theorem multiple?_eq_repeatedSum? {p : Point} (hp : p.InGroup) (m : Word) :
    ∃ q, multiple? m p = .ok q ∧ q.InGroup ∧ repeatedSum? p m.toNat = .ok q ∧
      ladderToLead? infinity p (lowBits m.toNat m.bitLength) = .ok q := by
  obtain ⟨g, rfl⟩ := hp.exists_ofGroup
  have product := multiple?_ofGroup m g
  refine ⟨_, product, inGroup_ofGroup _, repeatedSum?_ofGroup g _, ?_⟩
  rw [ladderToLead?_eq]
  exact product

theorem multiple?_add {p : Point} (hp : p.InGroup) {m n : Word}
    (fits : m.toNat + n.toNat < Word.size) :
    (do let a ← multiple? m p; let b ← multiple? n p; a.add? b) = multiple? (m + n) p := by
  obtain ⟨g, rfl⟩ := hp.exists_ofGroup
  have sum : (m + n).toNat = m.toNat + n.toNat := BitVec.toNat_add_of_lt fits
  simp only [multiple?_ofGroup, ok_bind, add?_ofGroup, sum, add_nsmul]

theorem multiple?_mul {p : Point} (hp : p.InGroup) {m n : Word}
    (fits : m.toNat * n.toNat < Word.size) :
    (do let a ← multiple? n p; multiple? m a) = multiple? (m * n) p := by
  obtain ⟨g, rfl⟩ := hp.exists_ofGroup
  have product : (m * n).toNat = m.toNat * n.toNat := BitVec.toNat_mul_of_lt fits
  simp only [multiple?_ofGroup, ok_bind, product, mul_nsmul']

theorem multiple?_generator_eq_iff {m n : Word} :
    multiple? m generator = multiple? n generator ↔ m.toNat % order = n.toNat % order := by
  rw [multiple?_generator, multiple?_generator, Except.ok.injEq, ofGroup_injective.eq_iff,
    smul_base_eq_iff]
  rfl

theorem multiple?_order_sub {m : Word} (le : m.toNat ≤ order) :
    ∃ q, multiple? m generator = .ok q ∧ multiple? (orderWord - m) generator = .ok q.neg := by
  have below : m ≤ orderWord := by
    rw [BitVec.le_def, toNat_orderWord]
    exact le
  have rest : (orderWord - m).toNat = order - m.toNat := by
    rw [BitVec.toNat_sub_of_le below, toNat_orderWord]
  have opposite : (order - m.toNat) • base = -(m.toNat • base) := by
    apply eq_neg_of_add_eq_zero_left
    rw [← add_nsmul, Nat.sub_add_cancel le, smul_base_eq_zero_iff]
  refine ⟨_, multiple?_generator m, ?_⟩
  rw [multiple?_generator, rest, opposite, neg_ofGroup]

/-- From infinity or a reduced point of the curve, every scalar gives the sum of that many copies
of the point, whether or not the base is doubled behind the leading digit. So a sum of scalars gives
the sum of the multiples and a product the multiple of the multiple, where the word holds it;
scalars give one multiple of the generator exactly if they agree modulo the order, and opposite ones
if they sum to it. -/
theorem multiple?_isRepeatedSum {p : Point} (hp : p.InGroup) :
    (∀ m : Word, ∃ q, multiple? m p = .ok q ∧ q.InGroup ∧ repeatedSum? p m.toNat = .ok q ∧
      ladderToLead? infinity p (lowBits m.toNat m.bitLength) = .ok q) ∧
    (∀ m n : Word, m.toNat + n.toNat < Word.size →
      (do let a ← multiple? m p; let b ← multiple? n p; a.add? b) = multiple? (m + n) p) ∧
    (∀ m n : Word, m.toNat * n.toNat < Word.size →
      (do let a ← multiple? n p; multiple? m a) = multiple? (m * n) p) ∧
    (∀ m n : Word, multiple? m generator = multiple? n generator ↔
      m.toNat % order = n.toNat % order) ∧
    (∀ m : Word, m.toNat ≤ order → ∃ q, multiple? m generator = .ok q ∧
      multiple? (orderWord - m) generator = .ok q.neg) :=
  ⟨multiple?_eq_repeatedSum? hp, fun _ _ => multiple?_add hp, fun _ _ => multiple?_mul hp,
    fun _ _ => multiple?_generator_eq_iff, fun _ => multiple?_order_sub⟩

/-- The largest scalars that the laws admit, at the generator: a sum one below `2 ^ 256`, a square
just below it, the order and its predecessor. -/
theorem multiple?_isRepeatedSum_largest :
    let largest : Word := BitVec.allOnes 256
    let half : Word := BitVec.twoPow 256 255
    let root : Word := BitVec.ofNat 256 (2 ^ 128 - 1)
    generator.InGroup ∧
      (∃ q, multiple? largest generator = .ok q ∧ repeatedSum? generator (2 ^ 256 - 1) = .ok q) ∧
      (do let a ← multiple? half generator; let b ← multiple? (half - 1) generator; a.add? b) =
        multiple? largest generator ∧
      (do let a ← multiple? root generator; multiple? root a) = multiple? (root * root) generator ∧
      multiple? orderWord generator = .ok infinity ∧
      multiple? (orderWord - 1) generator = .ok generator.neg := by
  intro largest half root
  obtain ⟨repeated, add, mul, reduces, opposite⟩ := multiple?_isRepeatedSum generator_inGroup
  obtain ⟨q, product, -, summed, -⟩ := repeated largest
  have whole : half + (half - 1) = largest := by decide
  obtain ⟨one, single, last⟩ := opposite 1 (by decide)
  obtain ⟨one', single', -, copy, -⟩ := repeated 1
  cases single'.symm.trans single
  have unit : repeatedSum? generator 1 = .ok generator := rfl
  cases copy.symm.trans unit
  refine ⟨generator_inGroup, ⟨q, product, summed⟩, ?_, mul root root (by decide), ?_, last⟩
  · rw [← whole]
    exact add half (half - 1) (by decide)
  · exact (reduces orderWord 0).mpr (by decide)

end Point
end StarkSigning

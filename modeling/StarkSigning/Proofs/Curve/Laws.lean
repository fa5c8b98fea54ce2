import StarkSigning.Proofs.Curve.Group

/-!
# StarkSigning.Proofs.Curve.Laws

The laws of addition, said of the points themselves. On infinity and the reduced points of the
curve addition never fails, stays among them, and is that of an abelian group; off them only some
of this is true, since addition asks for neither.

* `InGroup`: the points of the group.
* `add?_inGroup`, `neg_inGroup`: the operations stay among them.
* `add?_comm`, `add?_assoc`, `add?_neg`: the laws one by one.
* `add?_isAbelianGroup`: the laws together.
-/

namespace StarkSigning
namespace Point

/-- Infinity, or a point of the curve with reduced coordinates. -/
def InGroup (p : Point) : Prop :=
  p.Reduced ∧ p.onCurve = true

theorem inGroup_ofGroup (g : Curve.Group) : (ofGroup g).InGroup :=
  exists_ofGroup_iff.mp ⟨g, rfl⟩

theorem InGroup.exists_ofGroup {p : Point} (hp : p.InGroup) : ∃ g, ofGroup g = p :=
  exists_ofGroup_iff.mpr hp

theorem infinity_inGroup : infinity.InGroup :=
  inGroup_ofGroup 0

theorem generator_inGroup : Curve.generator.InGroup :=
  ⟨⟨by decide, by decide⟩, rfl⟩

theorem shift_inGroup : Curve.shift.InGroup :=
  ⟨⟨by decide, by decide⟩, rfl⟩

theorem neg_inGroup {p : Point} (hp : p.InGroup) : p.neg.InGroup := by
  obtain ⟨g, rfl⟩ := hp.exists_ofGroup
  rw [neg_ofGroup]
  exact inGroup_ofGroup (-g)

theorem add?_inGroup {p q : Point} (hp : p.InGroup) (hq : q.InGroup) :
    ∃ sum, p.add? q = .ok sum ∧ sum.InGroup := by
  obtain ⟨g, rfl⟩ := hp.exists_ofGroup
  obtain ⟨h, rfl⟩ := hq.exists_ofGroup
  exact ⟨ofGroup (g + h), add?_ofGroup g h, inGroup_ofGroup (g + h)⟩

theorem add?_comm {p q : Point} (hp : p.InGroup) (hq : q.InGroup) : p.add? q = q.add? p := by
  obtain ⟨g, rfl⟩ := hp.exists_ofGroup
  obtain ⟨h, rfl⟩ := hq.exists_ofGroup
  rw [add?_ofGroup, add?_ofGroup, add_comm]

/-- The sums on both sides exist and their last steps agree. -/
theorem add?_assoc {p q r : Point} (hp : p.InGroup) (hq : q.InGroup) (hr : r.InGroup) :
    ∃ left right sum, p.add? q = .ok left ∧ q.add? r = .ok right ∧
      left.add? r = .ok sum ∧ p.add? right = .ok sum := by
  obtain ⟨g, rfl⟩ := hp.exists_ofGroup
  obtain ⟨h, rfl⟩ := hq.exists_ofGroup
  obtain ⟨k, rfl⟩ := hr.exists_ofGroup
  refine ⟨ofGroup (g + h), ofGroup (h + k), ofGroup (g + h + k), add?_ofGroup g h,
    add?_ofGroup h k, add?_ofGroup (g + h) k, ?_⟩
  rw [add?_ofGroup, add_assoc]

theorem add?_infinity (p : Point) : p.add? infinity = .ok p := by
  cases p with
  | infinity => rfl
  | affine x y => rfl

theorem add?_neg {p : Point} (hp : p.InGroup) : p.add? p.neg = .ok infinity := by
  obtain ⟨g, rfl⟩ := hp.exists_ofGroup
  rw [neg_ofGroup, add?_ofGroup, add_neg_cancel, ofGroup_zero]

theorem neg_neg_eq {p : Point} (hp : p.InGroup) : p.neg.neg = p := by
  obtain ⟨g, rfl⟩ := hp.exists_ofGroup
  rw [neg_ofGroup, neg_ofGroup, neg_neg]

/-- On infinity and the reduced points of the curve, addition is total and that of an abelian
group, with infinity as zero and the negation of points; doubling adds a point to itself. -/
theorem add?_isAbelianGroup {p q r : Point} (hp : p.InGroup) (hq : q.InGroup) (hr : r.InGroup) :
    (∃ sum, p.add? q = .ok sum ∧ sum.InGroup) ∧
    p.add? q = q.add? p ∧
    (∃ left right sum, p.add? q = .ok left ∧ q.add? r = .ok right ∧
      left.add? r = .ok sum ∧ p.add? right = .ok sum) ∧
    (infinity.InGroup ∧ infinity.add? p = .ok p ∧ p.add? infinity = .ok p) ∧
    (p.neg.InGroup ∧ p.add? p.neg = .ok infinity ∧ p.neg.neg = p) ∧
    p.double? = p.add? p :=
  ⟨add?_inGroup hp hq, add?_comm hp hq, add?_assoc hp hq hr,
    ⟨infinity_inGroup, rfl, add?_infinity p⟩, ⟨neg_inGroup hp, add?_neg hp, neg_neg_eq hp⟩,
    (add?_self p).symm⟩

/-- Bracketed one way the shift point, its negation and the generator pass through infinity; both
ways give the generator. -/
theorem add?_isAbelianGroup_through_infinity :
    Curve.shift.InGroup ∧ Curve.shift.neg.InGroup ∧ Curve.generator.InGroup ∧
      Curve.shift.add? Curve.shift.neg = .ok infinity ∧
      ∃ right, Curve.shift.neg.add? Curve.generator = .ok right ∧
        Curve.shift.add? right = .ok Curve.generator := by
  have neg_mem : Curve.shift.neg.InGroup := neg_inGroup shift_inGroup
  obtain ⟨-, -, ⟨left, right, sum, hLeft, hRight, hSum, hSum'⟩, -, ⟨-, opposite, -⟩, -⟩ :=
    add?_isAbelianGroup shift_inGroup neg_mem generator_inGroup
  refine ⟨shift_inGroup, neg_mem, generator_inGroup, opposite, right, hRight, ?_⟩
  cases hLeft.symm.trans opposite
  cases hSum
  exact hSum'

end Point
end StarkSigning

import StarkSigning.Proofs.Hash.Pedersen

/-!
# StarkSigning.Proofs.Hash.Binding

The hash of a list binds the list. Two lists of one hash are equal, or two different pairs with
one two-to-one hash stand among the pairs that the two runs hashed. The last pair of a run holds
the number of elements, so lists of different lengths already differ there; from two lists of one
length the pairs are compared one by one along the folds.

* `hashedPairs`, `Collision`: the pairs of a run, and a collision between two runs.
* `fold?_binding`: two folds over lists of one length.
* `hashWithLength?_binding`, `hashWithLength?_binding_of_length_lt`: two hashes of lists.
-/

namespace StarkSigning

theorem Felt.ofLength_eq_iff {α : Type} {xs ys : List α} (hx : xs.length < 2 ^ 64)
    (hy : ys.length < 2 ^ 64) : ofLength xs = ofLength ys ↔ xs.length = ys.length := by
  have val_ofLength : ∀ {zs : List α}, zs.length < 2 ^ 64 → (ofLength zs).val = zs.length := by
    intro zs h
    change (UInt64.ofNat zs.length).toNat = zs.length
    rw [UInt64.toNat_ofNat', Nat.mod_eq_of_lt h]
  constructor
  · intro same
    rw [← val_ofLength hx, ← val_ofLength hy, same]
  · intro same
    apply Felt.ext
    rw [val_ofLength hx, val_ofLength hy, same]

namespace Pedersen

open Outcome

/-- What follows a step that may fail: nothing if it does. -/
def following (step : Except Error Felt) (f : Felt → List (Felt × Felt)) : List (Felt × Felt) :=
  match step with
  | .error _ => []
  | .ok next => f next

/-- The pairs that a fold hashes, in order. -/
def foldPairs (start : Felt) : List Felt → List (Felt × Felt)
  | [] => []
  | e :: rest => (start, e) :: following (hash? [start, e]) fun next => foldPairs next rest

/-- The pairs that the hash of a list hashes, in order. -/
def hashedPairs (elements : List Felt) : List (Felt × Felt) :=
  foldPairs Felt.zero (elements ++ [Felt.ofLength elements])

/-- Two different pairs have one hash, the first pair among these, the second among those. -/
def Collision (these those : List (Felt × Felt)) : Prop :=
  ∃ p ∈ these, ∃ q ∈ those, p ≠ q ∧
    ∃ h, hash? [p.1, p.2] = .ok h ∧ hash? [q.1, q.2] = .ok h

theorem Collision.mono {these those these' those' : List (Felt × Felt)}
    (collision : Collision these those) (sub : these ⊆ these') (sub' : those ⊆ those') :
    Collision these' those' := by
  obtain ⟨p, hp, q, hq, distinct⟩ := collision
  exact ⟨p, sub hp, q, sub' hq, distinct⟩

theorem foldPairs_cons {start e next : Felt} (h : hash? [start, e] = .ok next)
    (rest : List Felt) :
    foldPairs start (e :: rest) = (start, e) :: foldPairs next rest := by
  rw [foldPairs, h, following]

theorem foldPairs_singleton (start e : Felt) : foldPairs start [e] = [(start, e)] := by
  rw [foldPairs]
  cases hash? [start, e] with
  | error fault => rw [following]
  | ok next => rw [following, foldPairs]

theorem foldPairs_concat {start sum : Felt} {elements : List Felt}
    (h : fold? start elements = .ok sum) (e : Felt) :
    foldPairs start (elements ++ [e]) = foldPairs start elements ++ [(sum, e)] := by
  induction elements generalizing start with
  | nil =>
    cases h
    rw [List.nil_append, foldPairs_singleton, foldPairs, List.nil_append]
  | cons first rest ih =>
    obtain ⟨next, head, tail⟩ := fold?_cons_eq_ok_iff.mp h
    rw [List.cons_append, foldPairs_cons head, foldPairs_cons head, ih tail, List.cons_append]

theorem hash?_binding {a b e f h : Felt} (first : hash? [a, e] = .ok h)
    (second : hash? [b, f] = .ok h) :
    (a = b ∧ e = f) ∨ Collision [(a, e)] [(b, f)] := by
  by_cases same : (a, e) = (b, f)
  · left
    exact Prod.mk.inj same
  · right
    exact ⟨_, List.mem_singleton_self _, _, List.mem_singleton_self _, same, h, first, second⟩

theorem fold?_binding {a b d : Felt} {xs ys : List Felt} (sameLength : xs.length = ys.length)
    (first : fold? a xs = .ok d) (second : fold? b ys = .ok d) :
    (a = b ∧ xs = ys) ∨ Collision (foldPairs a xs) (foldPairs b ys) := by
  induction xs generalizing a b ys with
  | nil =>
    cases List.length_eq_zero_iff.mp sameLength.symm
    cases first
    cases second
    exact Or.inl ⟨rfl, rfl⟩
  | cons e xs ih =>
    cases ys with
    | nil => cases sameLength
    | cons f ys =>
      obtain ⟨next, head, tail⟩ := fold?_cons_eq_ok_iff.mp first
      obtain ⟨next', head', tail'⟩ := fold?_cons_eq_ok_iff.mp second
      rw [foldPairs_cons head, foldPairs_cons head']
      -- The results of the first steps are equal unless the pairs of a later step collide.
      rcases ih (Nat.succ.inj sameLength) tail tail' with ⟨rfl, rfl⟩ | later
      · rcases hash?_binding head head' with ⟨rfl, rfl⟩ | here
        · exact Or.inl ⟨rfl, rfl⟩
        · right
          exact here.mono (List.cons_subset_cons _ (List.nil_subset _))
            (List.cons_subset_cons _ (List.nil_subset _))
      · right
        exact later.mono (List.subset_cons_self _ _) (List.subset_cons_self _ _)

/-- The hash of a list binds it, where equal last elements mean equal lengths. -/
theorem hashWithLength?_binding {xs ys : List Felt} {h : Felt}
    (lengths : Felt.ofLength xs = Felt.ofLength ys → xs.length = ys.length)
    (first : hashWithLength? xs = .ok h) (second : hashWithLength? ys = .ok h) :
    xs = ys ∨ Collision (hashedPairs xs) (hashedPairs ys) := by
  obtain ⟨sum, fold, last⟩ := hashWithLength?_eq_ok_iff.mp first
  obtain ⟨sum', fold', last'⟩ := hashWithLength?_eq_ok_iff.mp second
  rw [hashedPairs, hashedPairs, foldPairs_concat fold, foldPairs_concat fold']
  -- The last pairs hold the folds and the lengths, so that equal ones leave folds of one length.
  rcases hash?_binding last last' with ⟨rfl, sameCount⟩ | here
  · rcases fold?_binding (lengths sameCount) fold fold' with ⟨_, same⟩ | earlier
    · exact Or.inl same
    · right
      exact earlier.mono (List.subset_append_left _ _) (List.subset_append_left _ _)
  · right
    exact here.mono (List.subset_append_right _ _) (List.subset_append_right _ _)

theorem hashWithLength?_binding_of_length_lt {xs ys : List Felt} {h : Felt}
    (hx : xs.length < 2 ^ 64) (hy : ys.length < 2 ^ 64)
    (first : hashWithLength? xs = .ok h) (second : hashWithLength? ys = .ok h) :
    xs = ys ∨ Collision (hashedPairs xs) (hashedPairs ys) :=
  hashWithLength?_binding (Felt.ofLength_eq_iff hx hy).mp first second

/-- The two lists are one list here, as different lists of one hash would be a known collision. -/
theorem hashWithLength?_binding_of_length_lt_one_zero :
    ∃ h, hashWithLength? [Felt.one, Felt.zero] = .ok h ∧
      ([Felt.one, Felt.zero] = [Felt.one, Felt.zero] ∨
        Collision (hashedPairs [Felt.one, Felt.zero]) (hashedPairs [Felt.one, Felt.zero])) := by
  have runs : (runWithLength? [Felt.one, Felt.zero]).isSome = true := by decide +kernel
  obtain ⟨h, run⟩ := Option.isSome_iff_exists.mp runs
  have hashed := hashWithLength?_of_runWithLength? run
  exact ⟨h, hashed, hashWithLength?_binding_of_length_lt (by decide) (by decide) hashed hashed⟩

end Pedersen
end StarkSigning

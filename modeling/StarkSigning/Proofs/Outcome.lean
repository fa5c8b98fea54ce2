import Mathlib.Data.List.Forall2
import StarkSigning.Error

/-!
# StarkSigning.Proofs.Outcome

How a sequence of partial operations succeeds: every operation of it does, each on the results of
those before it. And how it fails: at one operation, after the success of those before it. Two
sequences that agree step by step, up to a view of the results or a relation between them, agree as
a whole.

* `bind_eq_ok_iff`, `bind_eq_error_iff`: how two operations in sequence end.
* `mapM_eq_ok_iff_getElem`, `mapM_eq_error_iff`: the same for a pass over a list.
* `eq_mapM`, `eq_mapM_underKey`: recursions that are such passes, over items or over members.
* `Alike.bind`: sequences of operations with related results.
-/

namespace StarkSigning
namespace Outcome

variable {ε ε' α β : Type}

theorem bind_eq_ok_iff {x : Except ε α} {f : α → Except ε β} {b : β} :
    x >>= f = .ok b ↔ ∃ a, x = .ok a ∧ f a = .ok b := by
  cases x with
  | error e =>
    constructor
    · intro h; cases h
    · rintro ⟨a, h, _⟩; cases h
  | ok a =>
    constructor
    · intro h; exact ⟨a, rfl, h⟩
    · rintro ⟨_, h, hb⟩; cases h; exact hb

theorem bind_eq_error_iff {x : Except ε α} {f : α → Except ε β} {e : ε} :
    x >>= f = .error e ↔ x = .error e ∨ ∃ a, x = .ok a ∧ f a = .error e := by
  cases x with
  | error e' =>
    constructor
    · intro h; cases h; exact Or.inl rfl
    · rintro (h | ⟨a, h, _⟩)
      · cases h; rfl
      · cases h
  | ok a =>
    constructor
    · intro h; exact Or.inr ⟨a, rfl, h⟩
    · rintro (h | ⟨_, h, he⟩)
      · cases h
      · cases h; exact he

theorem ok_bind (a : α) (f : α → Except ε β) : (.ok a : Except ε α) >>= f = f a := rfl

theorem error_bind (e : ε) (f : α → Except ε β) : (.error e : Except ε α) >>= f = .error e := rfl

theorem mapError_ok (f : ε → ε') (a : α) : (.ok a : Except ε α).mapError f = .ok a := rfl

theorem mapError_error (f : ε → ε') (e : ε) :
    (.error e : Except ε α).mapError f = .error (f e) := rfl

theorem mapError_eq_ok_iff {x : Except ε α} {f : ε → ε'} {a : α} :
    x.mapError f = .ok a ↔ x = .ok a := by
  cases x with
  | error e =>
    constructor
    · intro h; cases h
    · intro h; cases h
  | ok b =>
    constructor
    · intro h; cases h; rfl
    · intro h; cases h; rfl

theorem mapError_eq_error_iff {x : Except ε α} {f : ε → ε'} {e : ε'} :
    x.mapError f = .error e ↔ ∃ cause, x = .error cause ∧ e = f cause := by
  cases x with
  | error cause =>
    constructor
    · intro h; cases h; exact ⟨cause, rfl, rfl⟩
    · rintro ⟨_, h, rfl⟩; cases h; rfl
  | ok b =>
    constructor
    · intro h; cases h
    · rintro ⟨_, h, _⟩; cases h

theorem map_ok (f : α → β) (a : α) : (.ok a : Except ε α).map f = .ok (f a) := rfl

theorem map_error (f : α → β) (e : ε) : (.error e : Except ε α).map f = .error e := rfl

theorem map_eq_ok_iff {x : Except ε α} {f : α → β} {b : β} :
    x.map f = .ok b ↔ ∃ a, x = .ok a ∧ b = f a := by
  cases x with
  | error e =>
    constructor
    · intro h; cases h
    · rintro ⟨a, h, _⟩; cases h
  | ok a =>
    constructor
    · intro h; cases h; exact ⟨a, rfl, rfl⟩
    · rintro ⟨_, h, rfl⟩; cases h; rfl

theorem map_eq_error_iff {x : Except ε α} {f : α → β} {e : ε} :
    x.map f = .error e ↔ x = .error e := by
  cases x with
  | error e' =>
    constructor
    · intro h; cases h; rfl
    · intro h; cases h; rfl
  | ok a =>
    constructor
    · intro h; cases h
    · intro h; cases h

/-- A view of the first result that the next operation respects passes to its result. -/
theorem map_bind_eq {α' β' : Type} {x : Except ε α} {view : α → α'} {view' : β → β'}
    {f : α → Except ε β} {f' : α' → Except ε β'} (next : ∀ a, f' (view a) = (f a).map view') :
    x.map view >>= f' = (x >>= f).map view' := by
  cases x with
  | error e => rfl
  | ok a => exact next a

/-- The same first operation, and behind each of its results the same next one up to a view. -/
theorem bind_eq_map {β' : Type} {x : Except ε α} {view : β → β'} {f : α → Except ε β}
    {f' : α → Except ε β'} (next : ∀ a, x = .ok a → f' a = (f a).map view) :
    x >>= f' = (x >>= f).map view := by
  cases x with
  | error e => rfl
  | ok a => exact next a rfl

theorem mapError_map (f : ε → ε') (view : α → β) (x : Except ε α) :
    (x.map view).mapError f = (x.mapError f).map view := by
  cases x with
  | error e => rfl
  | ok a => rfl

theorem eq_ok_of_toOption {x : Except ε α} {a : α} (h : x.toOption = some a) : x = .ok a := by
  cases x with
  | error e => cases h
  | ok b => cases h; rfl

theorem mapM_cons_eq_ok_iff {f : α → Except ε β} {a : α} {rest : List α} {bs : List β} :
    (a :: rest).mapM f = .ok bs ↔ ∃ b tail, f a = .ok b ∧ rest.mapM f = .ok tail ∧
      bs = b :: tail := by
  rw [List.mapM_cons, bind_eq_ok_iff]
  constructor
  · rintro ⟨b, head, h⟩
    obtain ⟨tail, rest, result⟩ := bind_eq_ok_iff.mp h
    cases result
    exact ⟨b, tail, head, rest, rfl⟩
  · rintro ⟨b, tail, head, rest, rfl⟩
    exact ⟨b, head, bind_eq_ok_iff.mpr ⟨tail, rest, rfl⟩⟩

/-- A pass over a list succeeds with the results of its elements, one for each and in order. -/
theorem mapM_eq_ok_iff_forall₂ {f : α → Except ε β} {as : List α} {bs : List β} :
    as.mapM f = .ok bs ↔ List.Forall₂ (fun a b => f a = .ok b) as bs := by
  induction as generalizing bs with
  | nil =>
    rw [List.forall₂_nil_left_iff]
    constructor
    · intro h; cases h; rfl
    · rintro rfl; rfl
  | cons a rest ih =>
    rw [mapM_cons_eq_ok_iff, List.forall₂_cons_left_iff]
    simp only [ih]

theorem mapM_eq_ok_iff_getElem {f : α → Except ε β} {as : List α} {bs : List β} :
    as.mapM f = .ok bs ↔ as.length = bs.length ∧
      ∀ i (h : i < as.length) (h' : i < bs.length), f as[i] = .ok bs[i] := by
  rw [mapM_eq_ok_iff_forall₂, List.forall₂_iff_get]
  rfl

theorem length_of_mapM_eq_ok {f : α → Except ε β} {as : List α} {bs : List β}
    (h : as.mapM f = .ok bs) : bs.length = as.length :=
  (mapM_eq_ok_iff_forall₂.mp h).length_eq.symm

/-- Two passes over a list with one result agree at every element. -/
theorem exists_of_mapM_eq_ok {f g : α → Except ε β} {as : List α} {bs : List β}
    (first : as.mapM f = .ok bs) (second : as.mapM g = .ok bs) :
    ∀ a ∈ as, ∃ b, f a = .ok b ∧ g a = .ok b := by
  induction as generalizing bs with
  | nil =>
    intro a member
    cases member
  | cons a rest ih =>
    obtain ⟨b, tail, head, tailEq, rfl⟩ := mapM_cons_eq_ok_iff.mp first
    obtain ⟨_, _, head', tailEq', same⟩ := mapM_cons_eq_ok_iff.mp second
    cases same
    intro a' member
    rcases List.mem_cons.mp member with rfl | member
    · exact ⟨b, head, head'⟩
    · exact ih tailEq tailEq' a' member

theorem mapM_eq_ok_map {f : α → Except ε β} {g : α → β} {as : List α}
    (each : ∀ a ∈ as, f a = .ok (g a)) : as.mapM f = .ok (as.map g) := by
  induction as with
  | nil => rfl
  | cons a rest ih =>
    rw [List.forall_mem_cons] at each
    exact mapM_cons_eq_ok_iff.mpr ⟨g a, rest.map g, each.1, ih each.2, rfl⟩

theorem mapM_eq_map {β' : Type} {f : α → Except ε β} {f' : α → Except ε β'} {view : β → β'}
    {as : List α} (each : ∀ a, f' a = (f a).map view) :
    as.mapM f' = (as.mapM f).map (List.map view) := by
  induction as with
  | nil => rfl
  | cons a rest ih =>
    rw [List.mapM_cons, List.mapM_cons, each, ih]
    refine map_bind_eq fun b => ?_
    exact map_bind_eq fun tail => rfl

theorem mapM_congr {f g : α → Except ε β} {as : List α} (each : ∀ a ∈ as, f a = g a) :
    as.mapM f = as.mapM g := by
  induction as with
  | nil => rfl
  | cons a rest ih =>
    rw [List.forall_mem_cons] at each
    rw [List.mapM_cons, List.mapM_cons, each.1, ih each.2]

/-- A pass whose elements succeed wherever those of another do, with the same results. -/
theorem mapM_eq_ok_mono {f g : α → Except ε β} {as : List α} {bs : List β}
    (each : ∀ a ∈ as, ∀ b, f a = .ok b → g a = .ok b) (h : as.mapM f = .ok bs) :
    as.mapM g = .ok bs := by
  induction as generalizing bs with
  | nil => exact h
  | cons a rest ih =>
    rw [List.forall_mem_cons] at each
    obtain ⟨b, tail, head, tailEq, rfl⟩ := mapM_cons_eq_ok_iff.mp h
    exact mapM_cons_eq_ok_iff.mpr ⟨b, tail, each.1 b head, ih each.2 tailEq, rfl⟩

/-- The results of a pass depend on nothing but the elements. -/
theorem exists_map_of_mapM_eq_ok [Inhabited β] {f : α → Except ε β} {as : List α} {bs : List β}
    (h : as.mapM f = .ok bs) : ∃ g : α → β, (∀ a ∈ as, f a = .ok (g a)) ∧ bs = as.map g := by
  have each : ∀ a ∈ as, f a = .ok ((f a).toOption.getD default) := by
    intro a member
    obtain ⟨b, found, -⟩ := exists_of_mapM_eq_ok h h a member
    rw [found]
    rfl
  refine ⟨_, each, ?_⟩
  rw [mapM_eq_ok_map each] at h
  exact (Except.ok.inj h).symm

/-- A pass over a list fails at the first element where the operation does. -/
theorem mapM_eq_error_iff {f : α → Except ε β} {as : List α} {e : ε} :
    as.mapM f = .error e ↔ ∃ before a after, as = before ++ a :: after ∧
      (∀ b ∈ before, ∃ c, f b = .ok c) ∧ f a = .error e := by
  constructor
  · intro h
    induction as with
    | nil => cases h
    | cons a rest ih =>
      rw [List.mapM_cons] at h
      cases head : f a with
      | error e' =>
        rw [head, error_bind] at h
        cases h
        exact ⟨[], a, rest, rfl, fun _ member => absurd member List.not_mem_nil, head⟩
      | ok b =>
        rw [head, ok_bind] at h
        rcases bind_eq_error_iff.mp h with later | ⟨_, _, result⟩
        · obtain ⟨before, a', after, rfl, each, fails⟩ := ih later
          refine ⟨a :: before, a', after, rfl, ?_, fails⟩
          rw [List.forall_mem_cons]
          exact ⟨⟨b, head⟩, each⟩
        · cases result
  · rintro ⟨before, a, after, rfl, each, fails⟩
    induction before with
    | nil => rw [List.nil_append, List.mapM_cons, fails, error_bind]
    | cons b rest ih =>
      rw [List.forall_mem_cons] at each
      obtain ⟨⟨c, head⟩, each⟩ := each
      rw [List.cons_append, List.mapM_cons, head, ok_bind, ih each, error_bind]

theorem exists_mapM_eq_error_iff {f : α → Except ε β} {as : List α} :
    (∃ e, as.mapM f = .error e) ↔ ∃ a ∈ as, ∃ e, f a = .error e := by
  constructor
  · rintro ⟨e, h⟩
    obtain ⟨before, a, after, rfl, -, fails⟩ := mapM_eq_error_iff.mp h
    exact ⟨a, List.mem_append_right before List.mem_cons_self, e, fails⟩
  · rintro ⟨a, member, e, fails⟩
    cases run : as.mapM f with
    | error e' => exact ⟨e', rfl⟩
    | ok bs =>
      obtain ⟨b, found, -⟩ := exists_of_mapM_eq_ok run run a member
      rw [fails] at found
      cases found

/-- A recursion that stops at the first failure is a pass over the list. -/
theorem eq_mapM {f : α → Except ε β} {run : List α → Except ε (List β)} (nil : run [] = .ok [])
    (cons : ∀ a rest, run (a :: rest) = f a >>= fun b => (run rest).map (b :: ·)) (as : List α) :
    run as = as.mapM f := by
  induction as with
  | nil => exact nil
  | cons a rest ih =>
    rw [cons, ih, List.mapM_cons]
    rfl

/-- The operation on a value that stands under a key, which is kept. -/
def underKey {κ : Type} (f : α → Except ε β) (member : κ × α) : Except ε (κ × β) :=
  (f member.2).map (member.1, ·)

section UnderKey

variable {κ : Type} {f : α → Except ε β} {member : κ × α}

theorem underKey_eq_ok_iff {result : κ × β} :
    underKey f member = .ok result ↔ result.1 = member.1 ∧ f member.2 = .ok result.2 := by
  rw [underKey, map_eq_ok_iff]
  constructor
  · rintro ⟨b, h, rfl⟩
    exact ⟨rfl, h⟩
  · rintro ⟨key, h⟩
    exact ⟨result.2, h, Prod.ext key rfl⟩

theorem underKey_eq_error_iff {e : ε} : underKey f member = .error e ↔ f member.2 = .error e :=
  map_eq_error_iff

/-- A recursion over members that stops at the first failure is a pass over them. -/
theorem eq_mapM_underKey {run : List (κ × α) → Except ε (List (κ × β))} (nil : run [] = .ok [])
    (cons : ∀ key a rest,
      run ((key, a) :: rest) = f a >>= fun b => (run rest).map ((key, b) :: ·))
    (members : List (κ × α)) : run members = members.mapM (underKey f) := by
  refine eq_mapM nil (fun member rest => ?_) members
  rw [← Prod.eta member, cons, underKey]
  cases f member.2 with
  | error e => rfl
  | ok b => rfl

end UnderKey

/-! ## Related results -/

/-- Two operations that fail for the same reason or succeed with related results. -/
inductive Alike {α' : Type} (related : α → α' → Prop) : Except ε α → Except ε α' → Prop
  | ok {a : α} {a' : α'} : related a a' → Alike related (.ok a) (.ok a')
  | error (e : ε) : Alike related (.error e) (.error e)

section Alike

variable {α' β' : Type} {related : α → α' → Prop} {x : Except ε α} {x' : Except ε α'}

theorem Alike.refl {related : α → α → Prop} (each : ∀ a, related a a) (x : Except ε α) :
    Alike related x x := by
  cases x with
  | ok a => exact .ok (each a)
  | error e => exact .error e

theorem Alike.of_eq {x x' : Except ε α} (same : x = x') : Alike Eq x x' := by
  subst same
  exact .refl (fun _ => rfl) x

theorem Alike.map {related' : β → β' → Prop} {f : α → β} {f' : α' → β'}
    (alike : Alike related x x') (next : ∀ a a', related a a' → related' (f a) (f' a')) :
    Alike related' (x.map f) (x'.map f') := by
  cases alike with
  | ok results => exact .ok (next _ _ results)
  | error e => exact .error e

theorem Alike.bind {related' : β → β' → Prop} {f : α → Except ε β} {f' : α' → Except ε β'}
    (first : Alike related x x') (next : ∀ a a', related a a' → Alike related' (f a) (f' a')) :
    Alike related' (x >>= f) (x' >>= f') := by
  cases first with
  | ok results => exact next _ _ results
  | error e => exact .error e

theorem Alike.mapError (f : ε → ε') (alike : Alike related x x') :
    Alike related (x.mapError f) (x'.mapError f) := by
  cases alike with
  | ok results => exact .ok results
  | error e => exact .error (f e)

theorem Alike.error_iff (alike : Alike related x x') (e : ε) : x = .error e ↔ x' = .error e := by
  cases alike with
  | ok results =>
    constructor
    · intro h; cases h
    · intro h; cases h
  | error e' =>
    constructor
    · intro h; cases h; rfl
    · intro h; cases h; rfl

theorem Alike.exists_ok_iff (alike : Alike related x x') :
    (∃ a, x = .ok a) ↔ ∃ a', x' = .ok a' := by
  cases alike with
  | @ok a a' results => exact ⟨fun _ => ⟨a', rfl⟩, fun _ => ⟨a, rfl⟩⟩
  | error e =>
    constructor
    · rintro ⟨a, h⟩; cases h
    · rintro ⟨a', h⟩; cases h

theorem Alike.related_of_ok {a : α} {a' : α'} (alike : Alike related x x') (h : x = .ok a)
    (h' : x' = .ok a') : related a a' := by
  cases alike with
  | ok results =>
    cases h
    cases h'
    exact results
  | error e => cases h

end Alike

end Outcome
end StarkSigning

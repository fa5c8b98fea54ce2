import Mathlib.Logic.Relation
import StarkSigning.Proofs.TypedData.Schema

/-!
# StarkSigning.Proofs.TypedData.References

The graph of references between declared types, and what the depth-first walk decides about it.
The walk from a type never meets that type again, and lists what it refers to together with
everything that those types refer to; so a walk that succeeds rules out cycles through the type it
started from. Conversely every type on the path reaches the fields under expansion, so that
meeting one of them again is a cycle of the graph.

* `Refers`: the edges of the graph.
* `Expanded`: what a successful walk adds to the list it was given.
* `exists_of?_eq_ok`, `mem_of_of?_of_transGen`: where walks succeed, and what they list.
* `checkTexts?_eq_ok_iff`: all walks together decide that nothing dangles and nothing is cyclic.
-/

namespace StarkSigning

namespace Dependencies

/-- A declaration of the type has a field of the other type, which is not primitive. -/
def Refers (types : List (String × TypeDef)) (name other : String) : Prop :=
  ∃ d f, (name, d) ∈ types ∧ f ∈ d ∧ f.typeName = other ∧ TypeName.isPrimitive other = false

/-- Every type that is referred to is declared. -/
def Closed (types : List (String × TypeDef)) : Prop :=
  ∀ name other, Refers types name other → other ∈ Table.keys types

/-- No type refers to itself, in one step or in several. -/
def Acyclic (types : List (String × TypeDef)) : Prop :=
  ∀ name, ¬ Relation.TransGen (Refers types) name name

theorem Refers.of_find? {types : Table TypeDef} {name : String} {d : TypeDef} {f : FieldDecl}
    (found : Table.find? name types = some d) (field : f ∈ d)
    (composite : TypeName.isPrimitive f.typeName = false) : Refers types name f.typeName :=
  ⟨d, f, Table.mem_of_find? found, field, rfl, composite⟩

/-- What a walk adds to a list: declared types whose references are listed too, and not on the
path. -/
structure Expanded (types : Table TypeDef) (path listed more : List String) : Prop where
  subset : listed ⊆ more
  declared : ∀ name ∈ more, name ∉ listed → name ∈ Table.keys types
  closed : ∀ name ∈ more, name ∉ listed → ∀ other, Refers types name other →
    other ∈ more ∧ other ∉ path

theorem Expanded.refl (types : Table TypeDef) (path listed : List String) :
    Expanded types path listed listed :=
  ⟨List.Subset.refl _, fun _ member fresh => absurd member fresh,
    fun _ member fresh => absurd member fresh⟩

theorem Expanded.trans {types : Table TypeDef} {path listed middle more : List String}
    (first : Expanded types path listed middle) (second : Expanded types path middle more) :
    Expanded types path listed more := by
  refine ⟨List.Subset.trans first.subset second.subset, ?_, ?_⟩
  · intro name member fresh
    by_cases early : name ∈ middle
    · exact first.declared name early fresh
    · exact second.declared name member early
  · intro name member fresh other refers
    by_cases early : name ∈ middle
    · obtain ⟨listed, off⟩ := first.closed name early fresh other refers
      exact ⟨second.subset listed, off⟩
    · exact second.closed name member early other refers

/-- A type is added before what it refers to, which is added below it. -/
theorem Expanded.expand {types : Table TypeDef} {path listed more : List String} {name : String}
    (declared : name ∈ Table.keys types)
    (references : ∀ other, Refers types name other → other ∈ more ∧ other ∉ path ++ [name])
    (below : Expanded types (path ++ [name]) (listed ++ [name]) more) :
    Expanded types path listed more := by
  refine ⟨?_, ?_, ?_⟩
  · intro other member
    exact below.subset (List.mem_append_left _ member)
  · intro other member fresh
    by_cases same : other = name
    · exact same ▸ declared
    · exact below.declared other member (by simp [fresh, same])
  · intro other member fresh next refers
    have listedNext : next ∈ more ∧ next ∉ path ++ [name] := by
      by_cases same : other = name
      · exact references next (same ▸ refers)
      · exact below.closed other member (by simp [fresh, same]) next refers
    exact ⟨listedNext.1, fun onPath => listedNext.2 (List.mem_append_left _ onPath)⟩

/-- A walk that succeeds has met no type of the path and listed what the fields refer to. -/
theorem expanded_of_collect? {types : Table TypeDef} (distinct : (Table.keys types).Nodup)
    {path listed more : List String} {fields : List FieldDecl}
    (run : collect? types path listed fields = .ok more) :
    Expanded types path listed more ∧ ∀ f ∈ fields, TypeName.isPrimitive f.typeName = false →
      f.typeName ∈ more ∧ f.typeName ∉ path := by
  fun_induction collect? types path listed fields generalizing more with
  | case1 path listed =>
    cases run
    exact ⟨Expanded.refl types path listed, fun f member => by cases member⟩
  | case2 path listed f rest primitive ih =>
    obtain ⟨expanded, covered⟩ := ih run
    refine ⟨expanded, ?_⟩
    intro f' member composite
    rcases List.mem_cons.mp member with rfl | later
    · rw [primitive] at composite
      cases composite
    · exact covered f' later composite
  | case3 path listed f rest composite onPath => cases run
  | case4 path listed f rest composite offPath known ih =>
    obtain ⟨expanded, covered⟩ := ih run
    refine ⟨expanded, ?_⟩
    intro f' member composite'
    -- A type met again off the path is no cycle: it was listed on another branch.
    rcases List.mem_cons.mp member with rfl | later
    · exact ⟨expanded.subset (by simpa using known), by simpa using offPath⟩
    · exact covered f' later composite'
  | case5 path listed f rest composite offPath unknown missing => cases run
  | case6 path listed f rest composite offPath unknown d found e fault ih => cases run
  | case7 path listed f rest composite offPath unknown d found middle inner ih ih' =>
    obtain ⟨below, coveredBelow⟩ := ih inner
    obtain ⟨expanded, covered⟩ := ih' run
    have declared : f.typeName ∈ Table.keys types :=
      Table.mem_keys_of_mem (Table.mem_of_find? found)
    have references : ∀ other, Refers types f.typeName other →
        other ∈ middle ∧ other ∉ path ++ [f.typeName] := by
      rintro other ⟨d', g, member, field, rfl, composite'⟩
      rw [← Table.find?_eq_some_iff distinct, found] at member
      cases member
      exact coveredBelow g field composite'
    -- Back on the outer path the walk goes on with a list that is expanded for it too.
    have first : Expanded types path listed middle := below.expand declared references
    refine ⟨first.trans expanded, ?_⟩
    intro f' member composite'
    rcases List.mem_cons.mp member with rfl | later
    · have listed' : f'.typeName ∈ middle := below.subset (by simp)
      exact ⟨expanded.subset listed', by simpa using offPath⟩
    · exact covered f' later composite'

/-- Every type of the path reaches every composite type that the fields name. -/
def ReachesFields (types : Table TypeDef) (path : List String) (fields : List FieldDecl) : Prop :=
  ∀ name ∈ path, ∀ f ∈ fields, TypeName.isPrimitive f.typeName = false →
    Relation.TransGen (Refers types) name f.typeName

theorem ReachesFields.tail {types : Table TypeDef} {path : List String} {f : FieldDecl}
    {rest : List FieldDecl} (reaches : ReachesFields types path (f :: rest)) :
    ReachesFields types path rest := by
  intro name onPath f' member
  exact reaches name onPath f' (List.mem_cons_of_mem f member)

/-- One step inward the path has one more type, and its fields take the place of the others. -/
theorem ReachesFields.inward {types : Table TypeDef} {path : List String} {f : FieldDecl}
    {rest : List FieldDecl} {d : TypeDef} (reaches : ReachesFields types path (f :: rest))
    (composite : TypeName.isPrimitive f.typeName = false)
    (found : Table.find? f.typeName types = some d) :
    ReachesFields types (path ++ [f.typeName]) d := by
  intro name onPath g field composite'
  have refers : Refers types f.typeName g.typeName := .of_find? found field composite'
  rcases List.mem_append.mp onPath with outer | last
  · exact (reaches name outer f List.mem_cons_self composite).tail refers
  · rw [List.mem_singleton.mp last]
    exact .single refers

/-- Where nothing dangles and nothing is cyclic, a walk succeeds below types that reach all its
fields. -/
theorem exists_collect?_eq_ok {types : Table TypeDef} (closed : Closed types)
    (acyclic : Acyclic types) {path listed : List String} {fields : List FieldDecl}
    (declared : ∀ f ∈ fields, TypeName.isPrimitive f.typeName = false →
      f.typeName ∈ Table.keys types)
    (reaches : ReachesFields types path fields) :
    ∃ more, collect? types path listed fields = .ok more := by
  fun_induction collect? types path listed fields with
  | case1 path listed => exact ⟨listed, rfl⟩
  | case2 path listed f rest primitive ih =>
    exact ih (fun f' member => declared f' (List.mem_cons_of_mem f member)) reaches.tail
  | case3 path listed f rest composite onPath =>
    -- The field names a type of the path, and every type of the path reaches the field.
    have cycle := reaches f.typeName (by simpa using onPath) f List.mem_cons_self
      (by simpa using composite)
    exact absurd cycle (acyclic f.typeName)
  | case4 path listed f rest composite offPath known ih =>
    exact ih (fun f' member => declared f' (List.mem_cons_of_mem f member)) reaches.tail
  | case5 path listed f rest composite offPath unknown missing =>
    have member := declared f List.mem_cons_self (by simpa using composite)
    rw [← Table.find?_isSome_iff, missing] at member
    cases member
  | case6 path listed f rest composite offPath unknown d found e fault ih =>
    have declaredBelow : ∀ g ∈ d, TypeName.isPrimitive g.typeName = false →
        g.typeName ∈ Table.keys types := by
      intro g field composite'
      exact closed _ _ (.of_find? found field composite')
    obtain ⟨more, inner⟩ := ih declaredBelow (reaches.inward (by simpa using composite) found)
    cases fault.symm.trans inner
  | case7 path listed f rest composite offPath unknown d found middle inner ih ih' =>
    exact ih' (fun f' member => declared f' (List.mem_cons_of_mem f member)) reaches.tail

/-! ## Walks from one type -/

theorem of?_eq_ok_iff {types : Table TypeDef} {name : String} {names : List String} :
    of? types name = .ok names ↔
      ∃ d, Table.find? name types = some d ∧ collect? types [name] [] d = .ok names := by
  rw [of?]
  cases Table.find? name types with
  | none =>
    constructor
    · intro h; cases h
    · rintro ⟨_, h, _⟩; cases h
  | some d =>
    constructor
    · intro h; exact ⟨d, rfl, h⟩
    · rintro ⟨_, h, run⟩; cases h; exact run

/-- What a type refers to, in one step or in several, is declared, listed by the walk from it, and
is not the type itself. -/
theorem mem_of_of?_of_transGen {types : Table TypeDef} (distinct : (Table.keys types).Nodup)
    {name other : String} {names : List String} (run : of? types name = .ok names)
    (reaches : Relation.TransGen (Refers types) name other) :
    other ∈ names ∧ other ≠ name ∧ other ∈ Table.keys types := by
  obtain ⟨d, found, walk⟩ := of?_eq_ok_iff.mp run
  obtain ⟨expanded, covered⟩ := expanded_of_collect? distinct walk
  have listed : other ∈ names ∧ other ∉ [name] := by
    induction reaches with
    | single refers =>
      obtain ⟨d', f, member, field, rfl, composite⟩ := refers
      rw [← Table.find?_eq_some_iff distinct, found] at member
      cases member
      exact covered f field composite
    | tail _ refers ih => exact expanded.closed _ ih.1 List.not_mem_nil _ refers
  refine ⟨listed.1, ?_, expanded.declared other listed.1 List.not_mem_nil⟩
  intro same
  exact listed.2 (List.mem_singleton.mpr same)

theorem exists_of?_eq_ok {types : Table TypeDef} (closed : Closed types) (acyclic : Acyclic types)
    {name : String} (declared : name ∈ Table.keys types) :
    ∃ names, of? types name = .ok names := by
  obtain ⟨d, found⟩ :=
    Option.isSome_iff_exists.mp ((Table.find?_isSome_iff name types).mpr declared)
  have reaches : ReachesFields types [name] d := by
    intro outer onPath f field composite
    rw [List.mem_singleton.mp onPath]
    exact .single (.of_find? found field composite)
  obtain ⟨names, walk⟩ := exists_collect?_eq_ok closed acyclic
    (fun f field composite => closed _ _ (.of_find? found field composite)) reaches
  exact ⟨names, of?_eq_ok_iff.mpr ⟨d, found, walk⟩⟩

theorem exists_typeText?_iff {types : Table TypeDef} {name : String} :
    (∃ text, typeText? types name = .ok text) ↔ ∃ names, of? types name = .ok names := by
  rw [typeText?]
  cases of? types name with
  | error e => simp
  | ok names => simp

end Dependencies

namespace Schema

open Dependencies

theorem checkTexts?_eq_ok_iff_forall {types : Table TypeDef} {names : List String} :
    checkTexts? types names = .ok () ↔
      ∀ name ∈ names, ∃ text, Dependencies.typeText? types name = .ok text := by
  induction names with
  | nil => simp [checkTexts?]
  | cons name rest ih =>
    rw [checkTexts?, List.forall_mem_cons, ← ih]
    cases Dependencies.typeText? types name with
    | error e => simp
    | ok text => simp

/-- All declared types have full texts exactly where every reference is declared and no type
reaches itself. -/
theorem checkTexts?_eq_ok_iff {types : Table TypeDef} (distinct : (Table.keys types).Nodup) :
    checkTexts? types (Table.keys types) = .ok () ↔ Closed types ∧ Acyclic types := by
  rw [checkTexts?_eq_ok_iff_forall]
  simp only [exists_typeText?_iff]
  constructor
  · intro walks
    have declared : ∀ {name other}, Relation.TransGen (Refers types) name other →
        name ∈ Table.keys types := by
      intro name other reaches
      obtain ⟨_, ⟨d, _, member, _⟩, _⟩ := Relation.TransGen.head'_iff.mp reaches
      exact Table.mem_keys_of_mem member
    constructor
    · intro name other refers
      obtain ⟨names, run⟩ := walks name (declared (.single refers))
      exact (mem_of_of?_of_transGen distinct run (.single refers)).2.2
    · intro name cycle
      obtain ⟨names, run⟩ := walks name (declared cycle)
      exact (mem_of_of?_of_transGen distinct run cycle).2.1 rfl
  · rintro ⟨closed, acyclic⟩ name member
    exact exists_of?_eq_ok closed acyclic member

end Schema
end StarkSigning

import Mathlib.Data.List.Forall2
import StarkSigning.Proofs.TypedData.Hashing
import StarkSigning.Proofs.TypedData.Unfolding

/-!
# StarkSigning.Proofs.TypedData.Presentation

How a schema is written down does not matter. Types may be declared in any order, and the domain
type may go by either of its two names wherever a name stands: of a declared type, in a field, of
the primary type, and in what is asked of the schema later. Declarations that differ in no more
than this are accepted together, and as one schema.

* `TypeName.Respelled`, `Rearranged`: names and declarations that differ only so.
* `Rearranged.perm`: under canonical names the declarations differ in their order only.
* `ofTypes?_eq_of_perm`: and then they are accepted as one schema.
* `Accepted.structHash?_respelled`: names of one type are asked for with one result.
* `ofTypes?_ignores_presentation`: nothing that a schema answers depends on the presentation.
-/

namespace StarkSigning

/-- One name, or the two spellings of the domain type in either order. -/
inductive TypeName.Respelled : String → String → Prop
  | same (name : String) : Respelled name name
  | toAlias : Respelled TypeName.domain TypeName.domainAlias
  | fromAlias : Respelled TypeName.domainAlias TypeName.domain

theorem TypeName.Respelled.symm {name name' : String} (respelled : Respelled name name') :
    Respelled name' name := by
  cases respelled with
  | same name => exact .same name
  | toAlias => exact .fromAlias
  | fromAlias => exact .toAlias

theorem TypeName.Respelled.canonical_eq {name name' : String}
    (respelled : Respelled name name') : canonical name = canonical name' := by
  cases respelled with
  | same name => rfl
  | toAlias => decide
  | fromAlias => decide

/-- A field of this name and type, the type in either spelling. -/
structure FieldDecl.Respelled (f f' : FieldDecl) : Prop where
  name : f.name = f'.name
  typeName : TypeName.Respelled f.typeName f'.typeName

theorem FieldDecl.Respelled.canonical_eq {f f' : FieldDecl} (respelled : f.Respelled f') :
    f.canonical = f'.canonical := by
  rw [canonical, canonical, respelled.name, respelled.typeName.canonical_eq]

/-- A declaration with the same fields in the same order, all names in either spelling. -/
structure TypeDef.Respelled (declaration declaration' : String × TypeDef) : Prop where
  name : TypeName.Respelled declaration.1 declaration'.1
  fields : List.Forall₂ FieldDecl.Respelled declaration.2 declaration'.2

/-- Lists that are related element by element have one image under a map that respects it. -/
theorem map_eq_map_of_forall₂ {α β : Type} {R : α → α → Prop} {f : α → β} {as as' : List α}
    (respects : ∀ a a', R a a' → f a = f a') (related : List.Forall₂ R as as') :
    as.map f = as'.map f := by
  rw [← List.forall₂_eq_eq_eq, List.forall₂_map_left_iff, List.forall₂_map_right_iff]
  exact related.imp respects

namespace Schema

/-- The same declarations in any order, each with its names in either spelling. -/
def Rearranged (declared declared' : List (String × TypeDef)) : Prop :=
  ∃ respelled, List.Forall₂ TypeDef.Respelled declared respelled ∧ respelled.Perm declared'

theorem canonicalTypes_respelled {declared declared' : List (String × TypeDef)}
    (respelled : List.Forall₂ TypeDef.Respelled declared declared') :
    canonicalTypes declared = canonicalTypes declared' := by
  apply map_eq_map_of_forall₂ _ respelled
  intro declaration declaration' same
  have fields : declaration.2.map FieldDecl.canonical = declaration'.2.map FieldDecl.canonical :=
    map_eq_map_of_forall₂ (fun _ _ field => field.canonical_eq) same.fields
  rw [same.name.canonical_eq, fields]

theorem Rearranged.perm {declared declared' : List (String × TypeDef)}
    (same : Rearranged declared declared') :
    (canonicalTypes declared).Perm (canonicalTypes declared') := by
  obtain ⟨respelled, spelled, moved⟩ := same
  rw [canonicalTypes_respelled spelled]
  exact moved.map _

/-! ## One schema -/

theorem WellFormed.of_perm {declared declared' : List (String × TypeDef)}
    {primary primary' : String} {domain : Domain}
    (same : (canonicalTypes declared).Perm (canonicalTypes declared'))
    (samePrimary : TypeName.canonical primary = TypeName.canonical primary')
    (wf : WellFormed declared primary domain) : WellFormed declared' primary' domain := by
  have keys : (Table.keys (canonicalTypes declared)).Perm
      (Table.keys (canonicalTypes declared')) := same.map Prod.fst
  exact {
    composite := fun name member => wf.composite name (keys.mem_iff.mpr member)
    declared_once := keys.nodup_iff.mp wf.declared_once
    primary_declared := keys.mem_iff.mp (samePrimary ▸ wf.primary_declared)
    domain_declared := keys.mem_iff.mp wf.domain_declared
    domain_fields := fun fields member => wf.domain_fields fields (same.mem_iff.mpr member)
    references_declared := (closed_iff_of_perm same).mp wf.references_declared
    acyclic := (acyclic_iff_of_perm same).mp wf.acyclic }

theorem ofTypes?_eq_of_perm {declared declared' : List (String × TypeDef)}
    {primary primary' : String} {domain : Domain} {s : Schema}
    (same : (canonicalTypes declared).Perm (canonicalTypes declared'))
    (samePrimary : TypeName.canonical primary = TypeName.canonical primary')
    (run : ofTypes? declared primary domain = .ok s) :
    ofTypes? declared' primary' domain = .ok s := by
  have wf := wellFormed_of_ofTypes? run
  rw [ofTypes?_of_wellFormed wf, Table.ofList_eq_of_perm same wf.declared_once, samePrimary] at run
  rw [ofTypes?_of_wellFormed (wf.of_perm same samePrimary), run]

/-! ## One type under two names -/

theorem typeDef?_respelled (s : Schema) {name name' : String}
    (respelled : TypeName.Respelled name name') : s.typeDef? name = s.typeDef? name' := by
  rw [typeDef?, typeDef?, respelled.canonical_eq]

theorem typeText?_of_declared {s : Schema} {name : String} {d : TypeDef}
    (declared : s.typeDef? name = some d) :
    s.typeText? name = Dependencies.typeText? s.types (TypeName.canonical name) := by
  rw [typeText?, resolve?, declared]

theorem Accepted.domain_declared {s : Schema} (accepted : s.Accepted) :
    ∃ d, s.typeDef? TypeName.domain = some d := by
  obtain ⟨d, resolved, -⟩ := accepted.domain_fields
  exact ⟨d, resolve?_eq_ok_iff.mp resolved⟩

/-- Only the message about an undeclared type quotes the name that was asked for, and the domain
type is declared. -/
theorem Accepted.typeText?_respelled {s : Schema} (accepted : s.Accepted) {name name' : String}
    (respelled : TypeName.Respelled name name') : s.typeText? name = s.typeText? name' := by
  obtain ⟨d, declared⟩ := accepted.domain_declared
  have declared' : s.typeDef? TypeName.domainAlias = some d :=
    (s.typeDef?_respelled .fromAlias).trans declared
  cases respelled with
  | same name => rfl
  | toAlias =>
    rw [typeText?_of_declared declared, typeText?_of_declared declared',
      TypeName.Respelled.toAlias.canonical_eq]
  | fromAlias =>
    rw [typeText?_of_declared declared, typeText?_of_declared declared',
      TypeName.Respelled.toAlias.canonical_eq]

theorem Accepted.typeHash?_respelled {s : Schema} (accepted : s.Accepted) {name name' : String}
    (respelled : TypeName.Respelled name name') : s.typeHash? name = s.typeHash? name' := by
  rw [typeHash?, typeHash?, accepted.typeText?_respelled respelled]

theorem Accepted.structHash?_respelled {s : Schema} (accepted : s.Accepted)
    {name name' : String} (respelled : TypeName.Respelled name name') {v : TypedValue} {h : Felt}
    (run : s.structHash? name v = .ok h) : s.structHash? name' v = .ok h := by
  obtain ⟨fields, elements, rfl, found, hashed⟩ := structHash?_eq_ok_iff.mp run
  obtain ⟨d, typeHash, encodings, resolved, typed, encoded, rfl⟩ := elements?_eq_ok_iff.mp found
  rw [resolve?_eq_ok_iff, s.typeDef?_respelled respelled] at resolved
  rw [accepted.typeHash?_respelled respelled] at typed
  -- The name of the type stands in the faults of fields only, and no field has one.
  have encoded' : d.mapM (s.declaredEncoding? name' fields) = .ok encodings := by
    refine Outcome.mapM_eq_ok_mono ?_ encoded
    intro f _ e encodes
    rw [declaredEncoding?_eq_ok_iff] at encodes ⊢
    exact encodes
  exact structHash?_eq_ok_iff.mpr ⟨fields, _, rfl,
    elements?_eq_ok_iff.mpr ⟨d, typeHash, encodings, resolve?_eq_ok_iff.mpr resolved, typed,
      encoded', rfl⟩, hashed⟩

/-- Declarations in another order, with names of the domain type in another spelling, are accepted
exactly where the first ones are; and then everything that is asked of the two schemas, by names in
any spelling, has the same answer. -/
theorem ofTypes?_ignores_presentation {declared declared' : List (String × TypeDef)}
    {primary primary' : String} (domain : Domain) (same : Rearranged declared declared')
    (samePrimary : TypeName.Respelled primary primary') :
    ((∃ s, ofTypes? declared primary domain = .ok s) ↔
      ∃ s, ofTypes? declared' primary' domain = .ok s) ∧
    ∀ s s', ofTypes? declared primary domain = .ok s →
      ofTypes? declared' primary' domain = .ok s' →
      s.primary = s'.primary ∧ s.domain = s'.domain ∧
      (∀ name name', TypeName.Respelled name name' →
        s.typeDef? name = s'.typeDef? name' ∧ s.typeText? name = s'.typeText? name' ∧
        s.typeHash? name = s'.typeHash? name' ∧
        ∀ v h, s.structHash? name v = .ok h ↔ s'.structHash? name' v = .ok h) ∧
      s.domainHash? = s'.domainHash? ∧
      ∀ account v, s.messageHash? account v = s'.messageHash? account v := by
  have perm := same.perm
  have primaries := samePrimary.canonical_eq
  constructor
  · constructor
    · rintro ⟨s, run⟩
      exact ⟨s, ofTypes?_eq_of_perm perm primaries run⟩
    · rintro ⟨s, run⟩
      exact ⟨s, ofTypes?_eq_of_perm perm.symm primaries.symm run⟩
  · intro s s' run run'
    cases (ofTypes?_eq_of_perm perm primaries run).symm.trans run'
    have accepted : s.Accepted := ⟨declared, primary, domain, run⟩
    refine ⟨rfl, rfl, ?_, rfl, fun account v => rfl⟩
    intro name name' respelled
    refine ⟨s.typeDef?_respelled respelled, accepted.typeText?_respelled respelled,
      accepted.typeHash?_respelled respelled, ?_⟩
    intro v h
    exact ⟨accepted.structHash?_respelled respelled, accepted.structHash?_respelled respelled.symm⟩

def letterFields (domainName : String) : TypeDef :=
  [⟨"origin", domainName⟩, ⟨"body", "felt*"⟩]

/-- A letter with its origin, under one name of the domain type. -/
def letterTypes : List (String × TypeDef) :=
  [("Letter", letterFields "StarknetDomain"), ("StarknetDomain", [⟨"name", "felt"⟩])]

/-- The same types, the other way round and under the other name. -/
def letterTypes' : List (String × TypeDef) :=
  [("StarkNetDomain", [⟨"name", "felt"⟩]), ("Letter", letterFields "StarkNetDomain")]

theorem rearranged_letterTypes : Rearranged letterTypes letterTypes' := by
  have name : FieldDecl.Respelled ⟨"name", "felt"⟩ ⟨"name", "felt"⟩ := ⟨rfl, .same _⟩
  have origin : FieldDecl.Respelled ⟨"origin", "StarknetDomain"⟩ ⟨"origin", "StarkNetDomain"⟩ :=
    ⟨rfl, .fromAlias⟩
  have body : FieldDecl.Respelled ⟨"body", "felt*"⟩ ⟨"body", "felt*"⟩ := ⟨rfl, .same _⟩
  have letter : TypeDef.Respelled ("Letter", letterFields "StarknetDomain")
      ("Letter", letterFields "StarkNetDomain") :=
    ⟨.same _, .cons origin (.cons body .nil)⟩
  have separator : TypeDef.Respelled ("StarknetDomain", [⟨"name", "felt"⟩])
      ("StarkNetDomain", [⟨"name", "felt"⟩]) :=
    ⟨.fromAlias, .cons name .nil⟩
  exact ⟨_, .cons letter (.cons separator .nil), List.Perm.swap _ _ _⟩

/-- Letters are accepted in both presentations, with a domain type as the primary type. -/
theorem ofTypes?_ignores_presentation_letter :
    Rearranged letterTypes letterTypes' ∧
      TypeName.Respelled TypeName.domainAlias TypeName.domain ∧
      ∃ s s', ofTypes? letterTypes TypeName.domainAlias ⟨"5", "1", "1"⟩ = .ok s ∧
        ofTypes? letterTypes' TypeName.domain ⟨"5", "1", "1"⟩ = .ok s' ∧
        s.primary = s'.primary ∧ s.typeText? "Letter" = s'.typeText? "Letter" ∧
        s.typeHash? "StarkNetDomain" = s'.typeHash? "StarknetDomain" ∧
        ∀ account v, s.messageHash? account v = s'.messageHash? account v := by
  obtain ⟨e, named⟩ := exists_toFelt?_five
  let rank (name : String) : Nat := if name = "Letter" then 1 else 0
  have wf : WellFormed letterTypes TypeName.domainAlias ⟨"5", "1", "1"⟩ :=
    wellFormed_of_rank rank (by decide) (by decide) (by decide) (by decide) (by decide) named
      (by decide)
  have run := ofTypes?_of_wellFormed wf
  obtain ⟨accepted, answers⟩ :=
    ofTypes?_ignores_presentation ⟨"5", "1", "1"⟩ rearranged_letterTypes .fromAlias
  obtain ⟨s', run'⟩ := accepted.mp ⟨_, run⟩
  obtain ⟨primary, -, names, -, messages⟩ := answers _ s' run run'
  exact ⟨rearranged_letterTypes, .fromAlias, _, s', run, run', primary,
    (names _ _ (.same "Letter")).2.1, (names _ _ .toAlias).2.2.1, messages⟩

end Schema
end StarkSigning

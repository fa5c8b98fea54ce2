import StarkSigning.TypedData.Schema
import StarkSigning.Proofs.Outcome
import StarkSigning.Proofs.Table

/-!
# StarkSigning.Proofs.TypedData.Schema

What it means that declarations are accepted as a schema.

* `ofTypes?_eq_ok_iff`: acceptance is the success of all checks.
* `Accepted`: the schemas that come out of it.
* `declare?_eq_ok_iff`: which declarations fill a table.
* `checkDomain?_eq_ok_iff`: every field of the domain type reads a part with an encoding.
-/

namespace StarkSigning

theorem Dependencies.collect?_of_primitive {types : Table TypeDef} {path listed : List String}
    {fields : List FieldDecl} (primitive : ∀ f ∈ fields, TypeName.isPrimitive f.typeName = true) :
    collect? types path listed fields = .ok listed := by
  induction fields with
  | nil => rw [collect?]
  | cons f rest ih =>
    rw [collect?, if_pos (primitive f List.mem_cons_self)]
    exact ih fun f' member => primitive f' (List.mem_cons_of_mem f member)

theorem Dependencies.typeText?_of_primitive {types : Table TypeDef} {name : String} {d : TypeDef}
    (found : Table.find? name types = some d)
    (primitive : ∀ f ∈ d, TypeName.isPrimitive f.typeName = true) :
    typeText? types name = .ok (TypeDef.text name d) := by
  rw [typeText?, of?, found]
  dsimp only
  rw [collect?_of_primitive primitive]
  dsimp only
  rw [texts, List.filterMap_cons, found, List.filterMap_nil]
  simp [String.join]

namespace Schema

open Outcome

theorem ofTypes?_eq_ok_iff {declared : List (String × TypeDef)} {primary : String}
    {domain : Domain} {s : Schema} :
    ofTypes? declared primary domain = .ok s ↔
      declare? [] declared = .ok s.types ∧ s.primary = TypeName.canonical primary ∧
      s.domain = domain ∧ (Table.find? s.primary s.types).isSome ∧
      ∃ fields, Table.find? TypeName.domain s.types = some fields ∧
        checkDomain? domain fields = .ok () ∧
        checkTexts? s.types (Table.keys s.types) = .ok () := by
  constructor
  · intro run
    obtain ⟨types, declares, run⟩ := bind_eq_ok_iff.mp run
    dsimp only at run
    cases found : Table.find? (TypeName.canonical primary) types with
    | none =>
      rw [found] at run
      cases run
    | some d =>
      rw [found, if_neg (by simp)] at run
      cases fieldsFound : Table.find? TypeName.domain types with
      | none =>
        rw [fieldsFound] at run
        cases run
      | some fields =>
        rw [fieldsFound] at run
        obtain ⟨⟨⟩, separated, run⟩ := bind_eq_ok_iff.mp run
        obtain ⟨⟨⟩, texts, result⟩ := bind_eq_ok_iff.mp run
        cases result
        exact ⟨declares, rfl, rfl, by rw [found]; rfl, fields, fieldsFound, separated, texts⟩
  · rintro ⟨declares, named, rfl, found, fields, fieldsFound, separated, texts⟩
    obtain ⟨types, primary', domain⟩ := s
    dsimp only at declares named found fieldsFound separated texts ⊢
    subst named
    obtain ⟨d, found⟩ := Option.isSome_iff_exists.mp found
    rw [ofTypes?, declares, ok_bind]
    dsimp only
    rw [found, if_neg (by simp), fieldsFound]
    dsimp only
    rw [separated, ok_bind, texts, ok_bind]
    rfl

/-- The declarations with the domain type under its one name, as a declared type and in fields. -/
def canonicalTypes (declared : List (String × TypeDef)) : List (String × TypeDef) :=
  declared.map fun pair => (TypeName.canonical pair.1, pair.2.map FieldDecl.canonical)

/-- Declarations fill a table exactly where no name is primitive, in the table or repeated. -/
theorem declare?_eq_ok_iff {types types' : Table TypeDef} {declared : List (String × TypeDef)} :
    declare? types declared = .ok types' ↔
      (∀ name ∈ Table.keys (canonicalTypes declared), TypeName.isPrimitive name = false) ∧
      (∀ name ∈ Table.keys (canonicalTypes declared), name ∉ Table.keys types) ∧
      (Table.keys (canonicalTypes declared)).Nodup ∧
      types' =
        (canonicalTypes declared).foldl (fun t pair => Table.insert pair.1 pair.2 t) types := by
  induction declared generalizing types with
  | nil =>
    constructor
    · intro h
      cases h
      exact ⟨fun _ member => absurd member List.not_mem_nil,
        fun _ member => absurd member List.not_mem_nil, List.nodup_nil, rfl⟩
    · rintro ⟨_, _, _, rfl⟩
      rfl
  | cons pair rest ih =>
    obtain ⟨given, d⟩ := pair
    have head : canonicalTypes ((given, d) :: rest) =
        (TypeName.canonical given, d.map FieldDecl.canonical) :: canonicalTypes rest := rfl
    rw [declare?, head, Table.keys, List.map_cons, List.forall_mem_cons, List.forall_mem_cons,
      List.nodup_cons, List.foldl_cons]
    dsimp only
    by_cases primitive : TypeName.isPrimitive (TypeName.canonical given) = true
    · simp [primitive]
    · by_cases known : (Table.find? (TypeName.canonical given) types).isSome = true
      · rw [if_neg primitive, if_pos known]
        rw [Table.find?_isSome_iff] at known
        simp [known]
      · rw [if_neg primitive, if_neg known, ih, Table.forall_not_mem_keys_insert_iff]
        rw [Table.find?_isSome_iff] at known
        rw [Bool.not_eq_true] at primitive
        constructor
        · rintro ⟨composite, ⟨unrepeated, fresh⟩, distinct, rfl⟩
          exact ⟨⟨primitive, composite⟩, ⟨known, fresh⟩, ⟨unrepeated, distinct⟩, rfl⟩
        · rintro ⟨⟨_, composite⟩, ⟨_, fresh⟩, ⟨unrepeated, distinct⟩, rfl⟩
          exact ⟨composite, ⟨unrepeated, fresh⟩, distinct, rfl⟩

theorem declare?_nil_eq_ok_iff {types : Table TypeDef} {declared : List (String × TypeDef)} :
    declare? [] declared = .ok types ↔
      (∀ name ∈ Table.keys (canonicalTypes declared), TypeName.isPrimitive name = false) ∧
      (Table.keys (canonicalTypes declared)).Nodup ∧
      types = Table.ofList (canonicalTypes declared) := by
  have fresh : ∀ name ∈ Table.keys (canonicalTypes declared),
      name ∉ Table.keys ([] : Table TypeDef) := fun _ _ => List.not_mem_nil
  rw [declare?_eq_ok_iff, and_iff_right fresh, Table.ofList]

/-- The table has the declarations, in another order. -/
theorem perm_of_declare? {types : Table TypeDef} {declared : List (String × TypeDef)}
    (run : declare? [] declared = .ok types) : types.Perm (canonicalTypes declared) := by
  obtain ⟨-, once, rfl⟩ := declare?_nil_eq_ok_iff.mp run
  exact Table.ofList_perm once

theorem checkDomain?_eq_ok_iff {domain : Domain} {fields : List FieldDecl} :
    checkDomain? domain fields = .ok () ↔ ∀ f ∈ fields, f.typeName = TypeName.felt ∧
      ∃ part e, domain.part? f.name = some part ∧ (Scalar.infer part).toFelt? = .ok e := by
  induction fields with
  | nil =>
    constructor
    · intro _ f member; cases member
    · intro _; rfl
  | cons f rest ih =>
    rw [checkDomain?, List.forall_mem_cons, ← ih]
    cases domain.part? f.name with
    | none =>
      constructor
      · intro h; cases h
      · rintro ⟨⟨_, _, _, h, _⟩, _⟩; cases h
    | some part =>
      dsimp only
      by_cases element : f.typeName = TypeName.felt
      · rw [if_neg (not_not_intro element)]
        cases encoded : (Scalar.infer part).toFelt? with
        | error cause =>
          constructor
          · intro h; cases h
          · rintro ⟨⟨_, _, _, h, encoded'⟩, _⟩
            cases h
            cases encoded.symm.trans encoded'
        | ok e =>
          constructor
          · intro h; exact ⟨⟨element, part, e, rfl, encoded⟩, h⟩
          · rintro ⟨_, h⟩; exact h
      · rw [if_pos element]
        constructor
        · intro h; cases h
        · rintro ⟨⟨h, _⟩, _⟩; exact absurd h element

theorem resolve?_congr {s s' : Schema} (sameTypes : s.types = s'.types) (name : String) :
    s.resolve? name = s'.resolve? name := by
  rw [resolve?, resolve?, typeDef?, typeDef?, sameTypes]

/-- A schema that declarations are accepted as. -/
def Accepted (s : Schema) : Prop :=
  ∃ declared primary domain, ofTypes? declared primary domain = .ok s

theorem Accepted.primary_composite {s : Schema} (accepted : s.Accepted) :
    TypeName.isPrimitive s.primary = false := by
  obtain ⟨declared, primary, domain, run⟩ := accepted
  obtain ⟨declares, _, _, found, _⟩ := ofTypes?_eq_ok_iff.mp run
  have keys : (Table.keys s.types).Perm (Table.keys (canonicalTypes declared)) :=
    (perm_of_declare? declares).map Prod.fst
  rw [Table.find?_isSome_iff, keys.mem_iff] at found
  exact (declare?_nil_eq_ok_iff.mp declares).1 s.primary found

theorem Accepted.domain_fields {s : Schema} (accepted : s.Accepted) :
    ∃ fieldDecls, s.resolve? TypeName.domain = .ok fieldDecls ∧
      ∀ f ∈ fieldDecls, f.typeName = TypeName.felt ∧
        ∃ part e, s.domain.part? f.name = some part ∧ (Scalar.infer part).toFelt? = .ok e := by
  obtain ⟨declared, primary, domain, run⟩ := accepted
  obtain ⟨_, _, rfl, _, fieldDecls, found, separated, _⟩ := ofTypes?_eq_ok_iff.mp run
  refine ⟨fieldDecls, ?_, checkDomain?_eq_ok_iff.mp separated⟩
  rw [resolve?, typeDef?, TypeName.canonical, if_neg (by decide), found]

/-- A domain type is a schema of its own where every field of it reads a part of the domain. -/
theorem accepted_of_domain_fields {domain : Domain} {fields : TypeDef}
    (elements : ∀ f ∈ fields, f.typeName = TypeName.felt ∧
      ∃ part e, domain.part? f.name = some part ∧ (Scalar.infer part).toFelt? = .ok e) :
    Accepted ⟨[(TypeName.domain, fields)], TypeName.domain, domain⟩ := by
  have primitive : ∀ f ∈ fields, TypeName.isPrimitive f.typeName = true := by
    intro f member
    rw [(elements f member).1]
    rfl
  have canonical : fields.map FieldDecl.canonical = fields := by
    refine (List.map_congr_left ?_).trans (List.map_id fields)
    rintro ⟨name, typeName⟩ member
    cases (elements _ member).1
    rfl
  have declares : declare? [] [(TypeName.domain, fields)] =
      .ok [(TypeName.domain, fields.map FieldDecl.canonical)] := rfl
  rw [canonical] at declares
  refine ⟨[(TypeName.domain, fields)], TypeName.domain, domain, ofTypes?_eq_ok_iff.mpr
    ⟨declares, rfl, rfl, rfl, fields, rfl, checkDomain?_eq_ok_iff.mpr elements, ?_⟩⟩
  have keys : Table.keys [(TypeName.domain, fields)] = [TypeName.domain] := rfl
  rw [keys, checkTexts?, Dependencies.typeText?_of_primitive rfl primitive]
  rfl

end Schema
end StarkSigning

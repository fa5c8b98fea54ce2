import StarkSigning.Proofs.TypedData.References

/-!
# StarkSigning.Proofs.TypedData.Acceptance

Which declarations are accepted as a schema: the well-formed ones, and no others. Acceptance goes
through a sorted table that is filled declaration by declaration, a check of the domain type and a
walk from every type; being well-formed speaks of the list of declarations and its graph of
references only.

* `WellFormed`: the conditions on the declarations, the primary type and the domain.
* `closed_iff_of_perm`, `acyclic_iff_of_perm`: the order of declarations is of no account.
* `ofTypes?_of_wellFormed`, `ofTypes?_accepts_iff_wellFormed`: acceptance.
* `Accepted.distinct`, `Accepted.closed`, `Accepted.acyclic`, `Accepted.canonical_eq`: what it
  leaves in the table of an accepted schema.
-/

namespace StarkSigning

/-- A field of the domain type of this name reads this text. -/
def Domain.Supplies (d : Domain) (field text : String) : Prop :=
  (field = "name" ∧ text = d.name) ∨ (field = "version" ∧ text = d.version) ∨
    (field = "chainId" ∧ text = d.chainId)

theorem Domain.part?_eq_some_iff {d : Domain} {field text : String} :
    d.part? field = some text ↔ d.Supplies field text := by
  rw [part?, Supplies]
  by_cases name : field = "name"
  · subst name
    simp [eq_comm]
  · by_cases version : field = "version"
    · subst version
      simp [eq_comm]
    · by_cases chainId : field = "chainId"
      · subst chainId
        simp [eq_comm]
      · simp [name, version, chainId]

theorem TypeName.canonical_canonical (name : String) :
    canonical (canonical name) = canonical name := by
  by_cases respelled : name = domainAlias
  · rw [respelled]
    decide
  · have kept : canonical name = name := if_neg respelled
    rw [kept, kept]

namespace Schema

open Dependencies

/-- Declarations, a primary type and a domain that have a meaning together. -/
structure WellFormed (declared : List (String × TypeDef)) (primary : String) (domain : Domain) :
    Prop where
  composite : ∀ name ∈ Table.keys (canonicalTypes declared),
    name ≠ TypeName.felt ∧ name ≠ TypeName.feltArray
  declared_once : (Table.keys (canonicalTypes declared)).Nodup
  primary_declared : TypeName.canonical primary ∈ Table.keys (canonicalTypes declared)
  domain_declared : TypeName.domain ∈ Table.keys (canonicalTypes declared)
  domain_fields : ∀ fields, (TypeName.domain, fields) ∈ canonicalTypes declared → ∀ f ∈ fields,
    f.typeName = TypeName.felt ∧
      ∃ text e, domain.Supplies f.name text ∧ (Scalar.infer text).toFelt? = .ok e
  references_declared : Closed (canonicalTypes declared)
  acyclic : Acyclic (canonicalTypes declared)

theorem isPrimitive_eq_false_iff {name : String} :
    TypeName.isPrimitive name = false ↔ name ≠ TypeName.felt ∧ name ≠ TypeName.feltArray := by
  simp [TypeName.isPrimitive]

theorem refers_iff_of_perm {types types' : List (String × TypeDef)} (same : types.Perm types')
    {name other : String} : Refers types name other ↔ Refers types' name other := by
  simp only [Refers, same.mem_iff]

theorem closed_iff_of_perm {types types' : List (String × TypeDef)} (same : types.Perm types') :
    Closed types ↔ Closed types' := by
  have keys : (Table.keys types).Perm (Table.keys types') := same.map Prod.fst
  simp only [Closed, refers_iff_of_perm same, keys.mem_iff]

theorem acyclic_iff_of_perm {types types' : List (String × TypeDef)} (same : types.Perm types') :
    Acyclic types ↔ Acyclic types' := by
  have refers : Refers types = Refers types' := by
    funext name other
    exact propext (refers_iff_of_perm same)
  rw [Acyclic, Acyclic, refers]

/-- Well-formed declarations are accepted, as the sorted table of their canonical forms. -/
theorem ofTypes?_of_wellFormed {declared : List (String × TypeDef)} {primary : String}
    {domain : Domain} (wf : WellFormed declared primary domain) :
    ofTypes? declared primary domain =
      .ok ⟨Table.ofList (canonicalTypes declared), TypeName.canonical primary, domain⟩ := by
  have same := Table.ofList_perm wf.declared_once
  have keys : (Table.keys (Table.ofList (canonicalTypes declared))).Perm
      (Table.keys (canonicalTypes declared)) := same.map Prod.fst
  have distinct := keys.nodup_iff.mpr wf.declared_once
  obtain ⟨fields, found⟩ := Option.isSome_iff_exists.mp
    ((Table.find?_isSome_iff _ _).mpr (keys.mem_iff.mpr wf.domain_declared))
  apply ofTypes?_eq_ok_iff.mpr
  refine ⟨declare?_nil_eq_ok_iff.mpr ⟨?_, wf.declared_once, rfl⟩, rfl, rfl,
    (Table.find?_isSome_iff _ _).mpr (keys.mem_iff.mpr wf.primary_declared), fields, found, ?_, ?_⟩
  · intro name member
    exact isPrimitive_eq_false_iff.mpr (wf.composite name member)
  · rw [checkDomain?_eq_ok_iff]
    simp only [Domain.part?_eq_some_iff]
    exact wf.domain_fields fields (same.mem_iff.mp (Table.mem_of_find? found))
  · rw [checkTexts?_eq_ok_iff distinct, closed_iff_of_perm same, acyclic_iff_of_perm same]
    exact ⟨wf.references_declared, wf.acyclic⟩

theorem wellFormed_of_ofTypes? {declared : List (String × TypeDef)} {primary : String}
    {domain : Domain} {s : Schema} (run : ofTypes? declared primary domain = .ok s) :
    WellFormed declared primary domain := by
  obtain ⟨declares, named, -, primaryFound, fields, found, separated, texts⟩ :=
    ofTypes?_eq_ok_iff.mp run
  obtain ⟨composite, once, -⟩ := declare?_nil_eq_ok_iff.mp declares
  have same := perm_of_declare? declares
  have keys : (Table.keys s.types).Perm (Table.keys (canonicalTypes declared)) :=
    same.map Prod.fst
  have distinct := keys.nodup_iff.mpr once
  rw [checkTexts?_eq_ok_iff distinct, closed_iff_of_perm same, acyclic_iff_of_perm same] at texts
  rw [checkDomain?_eq_ok_iff] at separated
  simp only [Domain.part?_eq_some_iff] at separated
  rw [Table.find?_isSome_iff, named, keys.mem_iff] at primaryFound
  refine ⟨?_, once, primaryFound, ?_, ?_, texts.1, texts.2⟩
  · intro name member
    exact isPrimitive_eq_false_iff.mp (composite name member)
  · exact keys.mem_iff.mp (Table.mem_keys_of_mem (Table.mem_of_find? found))
  · intro fields' member
    rw [← same.mem_iff, ← Table.find?_eq_some_iff distinct, found] at member
    cases member
    exact separated

/-! ## Accepted schemas -/

theorem Accepted.exists_wellFormed {s : Schema} (accepted : s.Accepted) :
    ∃ declared primary domain, WellFormed declared primary domain ∧
      s.types.Perm (canonicalTypes declared) := by
  obtain ⟨declared, primary, domain, run⟩ := accepted
  obtain ⟨declares, -⟩ := ofTypes?_eq_ok_iff.mp run
  exact ⟨declared, primary, domain, wellFormed_of_ofTypes? run, perm_of_declare? declares⟩

theorem Accepted.distinct {s : Schema} (accepted : s.Accepted) : (Table.keys s.types).Nodup := by
  obtain ⟨declared, _, _, wf, same⟩ := accepted.exists_wellFormed
  have keys : (Table.keys s.types).Perm (Table.keys (canonicalTypes declared)) :=
    same.map Prod.fst
  exact keys.nodup_iff.mpr wf.declared_once

theorem Accepted.closed {s : Schema} (accepted : s.Accepted) : Closed s.types := by
  obtain ⟨_, _, _, wf, same⟩ := accepted.exists_wellFormed
  exact (closed_iff_of_perm same).mpr wf.references_declared

theorem Accepted.acyclic {s : Schema} (accepted : s.Accepted) : Acyclic s.types := by
  obtain ⟨_, _, _, wf, same⟩ := accepted.exists_wellFormed
  exact (acyclic_iff_of_perm same).mpr wf.acyclic

/-- Declared types and the types of their fields are under canonical names. -/
theorem Accepted.canonical_eq {s : Schema} (accepted : s.Accepted) {name : String} {d : TypeDef}
    (member : (name, d) ∈ s.types) :
    TypeName.canonical name = name ∧ ∀ f ∈ d, TypeName.canonical f.typeName = f.typeName := by
  obtain ⟨declared, _, _, _, same⟩ := accepted.exists_wellFormed
  obtain ⟨⟨given, fields⟩, _, equal⟩ := List.mem_map.mp (same.mem_iff.mp member)
  cases equal
  refine ⟨TypeName.canonical_canonical given, ?_⟩
  intro f field
  obtain ⟨g, _, rfl⟩ := List.mem_map.mp field
  exact TypeName.canonical_canonical g.typeName

theorem Accepted.typeDef?_eq_some_iff {s : Schema} (accepted : s.Accepted) {name : String}
    {d : TypeDef} : s.typeDef? name = some d ↔ (TypeName.canonical name, d) ∈ s.types := by
  rw [typeDef?, Table.find?_eq_some_iff accepted.distinct]

theorem Accepted.typeDef?_of_mem {s : Schema} (accepted : s.Accepted) {name : String}
    {d : TypeDef} (member : (name, d) ∈ s.types) : s.typeDef? name = some d := by
  rw [accepted.typeDef?_eq_some_iff, (accepted.canonical_eq member).1]
  exact member

/-- Whatever is declared, cyclic and dangling references included, there is an outcome: a schema
exactly where the declarations are well-formed, and a failed resolution of types elsewhere. -/
theorem ofTypes?_accepts_iff_wellFormed (declared : List (String × TypeDef)) (primary : String)
    (domain : Domain) :
    ((∃ s, ofTypes? declared primary domain = .ok s) ↔ WellFormed declared primary domain) ∧
    (¬ WellFormed declared primary domain →
      ∃ fault, ofTypes? declared primary domain = .error fault ∧
        (Error.schema fault).kind = .typeResolution) := by
  constructor
  · constructor
    · rintro ⟨s, run⟩
      exact wellFormed_of_ofTypes? run
    · intro wf
      exact ⟨_, ofTypes?_of_wellFormed wf⟩
  · intro malformed
    cases run : ofTypes? declared primary domain with
    | error fault => exact ⟨fault, rfl, rfl⟩
    | ok s => exact absurd (wellFormed_of_ofTypes? run) malformed

end Schema
end StarkSigning

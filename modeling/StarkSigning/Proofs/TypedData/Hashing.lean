import StarkSigning.TypedData.Hashing
import StarkSigning.Proofs.Outcome
import StarkSigning.Proofs.Table

/-!
# StarkSigning.Proofs.TypedData.Hashing

What the hash of a record and the hash of a message read. A record hashes one list, its
`elements?`: the hash of its type and the encoding of every declared field, each the `encoding?`
of the value found under the name of the field. A message hashes a list of four.

* `structHash?_record`: the hash of a record is that of its elements.
* `structHash?_eq_ok_iff`, `elements?_eq_ok_iff`, `messageHash?_eq_ok_iff`: what success means.
* `TypedValue.field_induction`: induction on a value through the fields it finds.
-/

namespace StarkSigning

/-- To prove a property of a value it may be assumed of the fields that the value finds. -/
theorem TypedValue.field_induction {motive : TypedValue → Prop}
    (step : ∀ v, (∀ fields name w, v = .record fields → Table.find? name fields = some w →
      motive w) → motive v) (v : TypedValue) : motive v := by
  apply step
  intro fields name w equal found
  exact field_induction step w
termination_by sizeOf v
decreasing_by
  have below := Table.sizeOf_lt_of_find? found
  rw [equal, TypedValue.record.sizeOf_spec]
  omega

namespace TypedValue

theorem scalar_ne_record (x : Scalar) (fields : List (String × TypedValue)) :
    scalar x ≠ record fields := by
  intro same
  cases same

theorem array_ne_record (items : List TypedValue) (fields : List (String × TypedValue)) :
    array items ≠ record fields := by
  intro same
  cases same

theorem record_or_not (v : TypedValue) :
    (∃ fields, v = record fields) ∨ ∀ fields, v ≠ record fields := by
  cases v with
  | scalar x => exact Or.inr (scalar_ne_record x)
  | array items => exact Or.inr (array_ne_record items)
  | record fields => exact Or.inl ⟨fields, rfl⟩

theorem toFelts?_eq_mapM (items : List TypedValue) : toFelts? items = items.mapM toFelt? := by
  apply Outcome.eq_mapM
  case nil => rfl
  case cons =>
    intro v rest
    rw [toFelts?]
    cases v.toFelt? with
    | error e => rfl
    | ok e =>
      cases toFelts? rest with
      | error e' => rfl
      | ok es => rfl

theorem length_of_toFelts? {items : List TypedValue} {es : List Felt}
    (h : toFelts? items = .ok es) : es.length = items.length := by
  rw [toFelts?_eq_mapM] at h
  exact Outcome.length_of_mapM_eq_ok h

theorem arrayHash?_array (items : List TypedValue) :
    (array items).arrayHash? = toFelts? items >>= Pedersen.hashWithLength? := by
  rw [arrayHash?]
  cases toFelts? items with
  | error e => rfl
  | ok es => rfl

theorem arrayHash?_eq_ok_iff {v : TypedValue} {h : Felt} :
    v.arrayHash? = .ok h ↔ ∃ items es, v = .array items ∧ toFelts? items = .ok es ∧
      Pedersen.hashWithLength? es = .ok h := by
  constructor
  · intro run
    cases v with
    | scalar s => cases run
    | record fields => cases run
    | array items =>
      rw [arrayHash?_array] at run
      obtain ⟨es, elements, hashed⟩ := Outcome.bind_eq_ok_iff.mp run
      exact ⟨items, es, rfl, elements, hashed⟩
  · rintro ⟨items, es, rfl, elements, hashed⟩
    rw [arrayHash?_array, elements, Outcome.ok_bind, hashed]

end TypedValue

theorem TypeName.kind_cases (name : String) :
    name = felt ∨ name = feltArray ∨ isPrimitive name = false := by
  by_cases element : name = felt
  · exact Or.inl element
  by_cases array : name = feltArray
  · exact Or.inr (Or.inl array)
  rw [isPrimitive, decide_eq_false element, decide_eq_false array]
  exact Or.inr (Or.inr rfl)

theorem Domain.toValue_eq (d : Domain) :
    d.toValue = .record [("chainId", .infer d.chainId), ("name", .infer d.name),
      ("version", .infer d.version)] := by
  have below : "chainId" < "name" := by decide
  have above : ¬"version" < "name" := by decide
  simp [toValue, TypedValue.ofFields, Table.ofList, Table.insert, below, above]

theorem Domain.find?_parts (d : Domain) (field : String) :
    Table.find? field [("chainId", TypedValue.infer d.chainId), ("name", .infer d.name),
      ("version", .infer d.version)] = (d.part? field).map .infer := by
  simp only [Table.find?, Domain.part?]
  by_cases h1 : field = "name"
  · subst h1
    rfl
  · by_cases h2 : field = "version"
    · subst h2
      rfl
    · by_cases h3 : field = "chainId"
      · subst h3
        rfl
      · rw [if_neg (Ne.symm h3), if_neg (Ne.symm h1), if_neg (Ne.symm h2), if_neg h1, if_neg h2,
          if_neg h3]
        rfl

namespace Schema

open Outcome

/-- The encoding of a value under the name of a type. -/
def encoding? (s : Schema) (typeName : String) (v : TypedValue) : Except Error Felt :=
  if typeName = TypeName.felt then v.toFelt?
  else if typeName = TypeName.feltArray then v.arrayHash?
  else s.structHash? typeName v

/-- The encoding of a declared field of a record. -/
def declaredEncoding? (s : Schema) (typeName : String) (fields : List (String × TypedValue))
    (f : FieldDecl) : Except Error Felt :=
  match Table.find? f.name fields with
  | none => .error (.schema (.missingField typeName f.name))
  | some v => (s.encoding? f.typeName v).mapError (Error.inField typeName f.name)

/-- The list that the hash of a record hashes. -/
def elements? (s : Schema) (typeName : String) (fields : List (String × TypedValue)) :
    Except Error (List Felt) := do
  let fieldDecls ← (s.resolve? typeName).mapError .schema
  let typeHash ← (s.typeHash? typeName).mapError .schema
  let encodings ← fieldDecls.mapM (s.declaredEncoding? typeName fields)
  return typeHash :: encodings

theorem resolve?_eq_ok_iff {s : Schema} {typeName : String} {d : TypeDef} :
    s.resolve? typeName = .ok d ↔ s.typeDef? typeName = some d := by
  rw [resolve?]
  cases s.typeDef? typeName with
  | none =>
    constructor
    · intro h; cases h
    · intro h; cases h
  | some d' =>
    constructor
    · intro h; cases h; rfl
    · intro h; cases h; rfl

theorem encoding?_felt (s : Schema) (v : TypedValue) :
    s.encoding? TypeName.felt v = v.toFelt? := by
  rw [encoding?, if_pos rfl]

theorem encoding?_feltArray (s : Schema) (v : TypedValue) :
    s.encoding? TypeName.feltArray v = v.arrayHash? := by
  rw [encoding?, if_neg (by decide), if_pos rfl]

theorem encoding?_of_not_primitive {typeName : String}
    (composite : TypeName.isPrimitive typeName = false) (s : Schema) (v : TypedValue) :
    s.encoding? typeName v = s.structHash? typeName v := by
  rw [TypeName.isPrimitive, Bool.or_eq_false_iff] at composite
  rw [encoding?, if_neg (of_decide_eq_false composite.1), if_neg (of_decide_eq_false composite.2)]

theorem fieldEncoding?_eq (s : Schema) (typeName name : String)
    (fields : List (String × TypedValue)) :
    s.fieldEncoding? typeName name fields =
      (Table.find? name fields).map (s.encoding? typeName) := by
  induction fields with
  | nil => rw [fieldEncoding?, Table.find?, Option.map_none]
  | cons pair rest ih =>
    obtain ⟨key, v⟩ := pair
    rw [fieldEncoding?, Table.find?]
    split
    · rfl
    · exact ih

theorem structHash?_record (s : Schema) (typeName : String)
    (fields : List (String × TypedValue)) :
    s.structHash? typeName (.record fields) =
      s.elements? typeName fields >>= Pedersen.hashWithLength? := by
  rw [structHash?, elements?]
  simp only [bind_assoc, pure_bind]
  congr 1
  funext fieldDecls
  congr 1
  funext typeHash
  congr 2
  funext f
  rw [fieldEncoding?_eq, declaredEncoding?]
  cases Table.find? f.name fields with
  | none => rfl
  | some v =>
    dsimp only [Option.map_some]
    cases s.encoding? f.typeName v with
    | error e => rfl
    | ok encoding => rfl

/-- Under a declared type that has a hash, the fields decide. -/
theorem structHash?_of_declared {s : Schema} {typeName : String} {fieldDecls : TypeDef}
    {typeHash : Felt} (declared : s.typeDef? typeName = some fieldDecls)
    (typed : s.typeHash? typeName = .ok typeHash) (fields : List (String × TypedValue)) :
    s.structHash? typeName (.record fields) =
      fieldDecls.mapM (s.declaredEncoding? typeName fields) >>= fun encodings =>
        Pedersen.hashWithLength? (typeHash :: encodings) := by
  rw [structHash?_record, elements?, resolve?_eq_ok_iff.mpr declared, typed, mapError_ok,
    mapError_ok, ok_bind, ok_bind, bind_assoc]
  simp only [pure_bind]

theorem structHash?_of_not_record {v : TypedValue} (shape : ∀ fields, v ≠ .record fields)
    (s : Schema) (typeName : String) :
    s.structHash? typeName v = (s.resolve? typeName).mapError .schema >>= fun _ =>
      .error (.schema (.structExpected typeName v.shape)) := by
  rw [structHash?]
  exact shape

theorem structHash?_of_undeclared {s : Schema} {typeName : String}
    (undeclared : s.typeDef? typeName = none) (v : TypedValue) :
    s.structHash? typeName v = .error (.schema (.undeclared typeName)) := by
  have unresolved : s.resolve? typeName = .error (.undeclared typeName) := by
    rw [resolve?, undeclared]
  rcases v.record_or_not with ⟨fields, rfl⟩ | shape
  · rw [structHash?_record, elements?, unresolved, mapError_error, error_bind, error_bind]
  · rw [structHash?_of_not_record shape, unresolved, mapError_error, error_bind]

theorem structHash?_eq_ok_iff {s : Schema} {typeName : String} {v : TypedValue} {h : Felt} :
    s.structHash? typeName v = .ok h ↔ ∃ fields elements, v = .record fields ∧
      s.elements? typeName fields = .ok elements ∧
      Pedersen.hashWithLength? elements = .ok h := by
  constructor
  · intro run
    rcases v.record_or_not with ⟨fields, rfl⟩ | shape
    · obtain ⟨elements, found, hashed⟩ := bind_eq_ok_iff.mp (structHash?_record s _ _ ▸ run)
      exact ⟨fields, elements, rfl, found, hashed⟩
    · rw [structHash?_of_not_record shape] at run
      obtain ⟨_, _, fault⟩ := bind_eq_ok_iff.mp run
      cases fault
  · rintro ⟨fields, elements, rfl, found, hashed⟩
    rw [structHash?_record, found, ok_bind, hashed]

theorem elements?_eq_ok_iff {s : Schema} {typeName : String}
    {fields : List (String × TypedValue)} {elements : List Felt} :
    s.elements? typeName fields = .ok elements ↔ ∃ fieldDecls typeHash encodings,
      s.resolve? typeName = .ok fieldDecls ∧ s.typeHash? typeName = .ok typeHash ∧
      fieldDecls.mapM (s.declaredEncoding? typeName fields) = .ok encodings ∧
      elements = typeHash :: encodings := by
  simp only [elements?, bind_eq_ok_iff, mapError_eq_ok_iff]
  constructor
  · rintro ⟨fieldDecls, resolved, typeHash, hashed, encodings, encoded, result⟩
    cases result
    exact ⟨fieldDecls, typeHash, encodings, resolved, hashed, encoded, rfl⟩
  · rintro ⟨fieldDecls, typeHash, encodings, resolved, hashed, encoded, rfl⟩
    exact ⟨fieldDecls, resolved, typeHash, hashed, encodings, encoded, rfl⟩

theorem declaredEncoding?_eq_ok_iff {s : Schema} {typeName : String}
    {fields : List (String × TypedValue)} {f : FieldDecl} {e : Felt} :
    s.declaredEncoding? typeName fields f = .ok e ↔ ∃ v, Table.find? f.name fields = some v ∧
      s.encoding? f.typeName v = .ok e := by
  rw [declaredEncoding?]
  cases Table.find? f.name fields with
  | none =>
    constructor
    · intro h; cases h
    · rintro ⟨_, h, _⟩; cases h
  | some v =>
    simp only [mapError_eq_ok_iff]
    constructor
    · intro h; exact ⟨v, rfl, h⟩
    · rintro ⟨_, h, encoded⟩; cases h; exact encoded

theorem messageHash?_eq_ok_iff {s : Schema} {account : Felt} {v : TypedValue} {h : Felt} :
    s.messageHash? account v = .ok h ↔ ∃ first domainHash valueHash,
      Felt.ofShortString? messagePrefix = .ok first ∧ s.domainHash? = .ok domainHash ∧
      s.structHash? s.primary v = .ok valueHash ∧
      Pedersen.hashWithLength? [first, domainHash, account, valueHash] = .ok h := by
  simp only [messageHash?, bind_eq_ok_iff, mapError_eq_ok_iff]
  constructor
  · rintro ⟨first, named, domainHash, separated, valueHash, hashed, final⟩
    exact ⟨first, domainHash, valueHash, named, separated, hashed, final⟩
  · rintro ⟨first, domainHash, valueHash, named, separated, hashed, final⟩
    exact ⟨first, named, domainHash, separated, valueHash, hashed, final⟩

end Schema
end StarkSigning

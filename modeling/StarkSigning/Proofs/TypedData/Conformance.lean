import StarkSigning.Proofs.Hash.Failure
import StarkSigning.Proofs.TypedData.Binding
import StarkSigning.Proofs.TypedData.Unfolding

/-!
# StarkSigning.Proofs.TypedData.Conformance

Which values have a hash under a type of an accepted schema, and with what the others are refused.
A value conforms to a type if every place that the type declares has the shape asked for there and
every scalar in such a place is an element; what else a record holds does not count. The hash runs
through the places depth first in declared order and stops at the first that does not conform.

One more failure can come between, the collision of a pair under the two-to-one hash. It may be
reported before or after an offending place is reached, so it is an outcome of its own.

* `Conforms`, `Encodes`: the values that conform, and what they are encoded as.
* `FirstOffence`: the first offending place of a value, by the kind of its fault.
* `encodes_iff`, `encoding?_eq_error`: when there is an encoding, and why there is none.
* `structHash?_outcome`: the outcomes for a record type.
-/

namespace StarkSigning

/-- The fault is, at any depth, that a type is not declared. -/
def SchemaFault.isUndeclared : SchemaFault → Bool
  | undeclared _ => true
  | inField _ _ cause => cause.isUndeclared
  | _ => false

def Error.isUndeclared : Error → Bool
  | schema fault => fault.isUndeclared
  | _ => false

theorem Error.kind_inField (typeName field : String) (e : Error) :
    (e.inField typeName field).kind = e.kind := by
  cases e <;> rfl

theorem Error.isUndeclared_inField (typeName field : String) (e : Error) :
    (e.inField typeName field).isUndeclared = e.isUndeclared := by
  cases e <;> rfl

/-- The first element of a list without a property is determined by the list. -/
theorem eq_of_first_failing {α : Type} {P : α → Prop} {before before' after after' : List α}
    {a a' : α} (same : before ++ a :: after = before' ++ a' :: after')
    (each : ∀ b ∈ before, P b) (each' : ∀ b ∈ before', P b) (fails : ¬ P a) (fails' : ¬ P a') :
    a = a' := by
  induction before generalizing before' with
  | nil =>
    cases before' with
    | nil => exact (List.cons.inj same).1
    | cons b' rest' =>
      obtain ⟨rfl, -⟩ := List.cons.inj same
      exact absurd (each' _ List.mem_cons_self) fails
  | cons b rest ih =>
    cases before' with
    | nil =>
      obtain ⟨rfl, -⟩ := List.cons.inj same
      exact absurd (each _ List.mem_cons_self) fails'
    | cons b' rest' =>
      rw [List.forall_mem_cons] at each each'
      exact ih (List.cons.inj same).2 each.2 each'.2

/-- The value has the shape that the type asks for. -/
def TypedValue.Fits (typeName : String) : TypedValue → Prop
  | .scalar _ => typeName = TypeName.felt
  | .array _ => typeName = TypeName.feltArray
  | .record _ => TypeName.isPrimitive typeName = false

theorem TypedValue.exists_scalar_of_toFelt? {v : TypedValue} {e : Felt} (value : v.toFelt? = .ok e) :
    ∃ x, v = .scalar x ∧ x.toFelt? = .ok e := by
  cases v with
  | scalar x => exact ⟨x, rfl, Outcome.mapError_eq_ok_iff.mp value⟩
  | array items => cases value
  | record fields => cases value

namespace Schema

open Outcome

/-! ## Conforming values -/

/-- Every place that the type declares has a value that is an element or an array of elements, as
the type says there. -/
inductive Conforms (s : Schema) : String → TypedValue → Prop
  | element {typeName : String} {v : TypedValue} {e : Felt}
      (element : typeName = TypeName.felt) (value : v.toFelt? = .ok e) : Conforms s typeName v
  | array {typeName : String} {items : List TypedValue}
      (array : typeName = TypeName.feltArray) (each : ∀ v ∈ items, ∃ e, v.toFelt? = .ok e) :
      Conforms s typeName (.array items)
  | record {typeName : String} {fields : List (String × TypedValue)} {fieldDecls : TypeDef}
      (composite : TypeName.isPrimitive typeName = false)
      (declared : s.typeDef? typeName = some fieldDecls)
      (present : ∀ f ∈ fieldDecls, (Table.find? f.name fields).isSome)
      (each : ∀ f ∈ fieldDecls, ∀ v, Table.find? f.name fields = some v →
        Conforms s f.typeName v) :
      Conforms s typeName (.record fields)

/-- The record has the field, with a value that conforms to its type. -/
def FieldConforms (s : Schema) (fields : List (String × TypedValue)) (f : FieldDecl) : Prop :=
  ∃ v, Table.find? f.name fields = some v ∧ s.Conforms f.typeName v

theorem conforms_felt_iff {s : Schema} {v : TypedValue} :
    s.Conforms TypeName.felt v ↔ ∃ e, v.toFelt? = .ok e := by
  constructor
  · intro conforms
    cases conforms with
    | element _ value => exact ⟨_, value⟩
    | array array _ => exact absurd array (by decide)
    | record composite _ _ _ => cases composite
  · rintro ⟨e, value⟩
    exact .element rfl value

theorem conforms_record_iff {s : Schema} {typeName : String} {fieldDecls : TypeDef}
    {fields : List (String × TypedValue)} (composite : TypeName.isPrimitive typeName = false)
    (declared : s.typeDef? typeName = some fieldDecls) :
    s.Conforms typeName (.record fields) ↔ ∀ f ∈ fieldDecls, s.FieldConforms fields f := by
  constructor
  · intro conforms f member
    cases conforms with
    | element _ value => cases value
    | record _ declared' present each =>
      cases declared.symm.trans declared'
      obtain ⟨v, found⟩ := Option.isSome_iff_exists.mp (present f member)
      exact ⟨v, found, each f member v found⟩
  · intro fine
    refine .record composite declared ?_ ?_
    · intro f member
      obtain ⟨v, found, _⟩ := fine f member
      rw [found]
      rfl
    · intro f member v found
      obtain ⟨_, found', conforms⟩ := fine f member
      cases found.symm.trans found'
      exact conforms

theorem Conforms.fits {s : Schema} {typeName : String} {v : TypedValue}
    (conforms : s.Conforms typeName v) : v.Fits typeName := by
  cases conforms with
  | element element value =>
    obtain ⟨x, rfl, _⟩ := TypedValue.exists_scalar_of_toFelt? value
    exact element
  | array array _ => exact array
  | record composite _ _ _ => exact composite

/-! ## Encodings -/

/-- An element is encoded as itself, an array as the hash of its elements, and a record as the hash
of the hash of its type and the encodings of the declared fields, in declared order. -/
inductive Encodes (s : Schema) : String → TypedValue → Felt → Prop
  | element {typeName : String} {v : TypedValue} {e : Felt}
      (element : typeName = TypeName.felt) (value : v.toFelt? = .ok e) : Encodes s typeName v e
  | array {typeName : String} {items : List TypedValue} {encode : TypedValue → Felt} {h : Felt}
      (array : typeName = TypeName.feltArray) (each : ∀ v ∈ items, v.toFelt? = .ok (encode v))
      (hashed : Pedersen.hashWithLength? (items.map encode) = .ok h) :
      Encodes s typeName (.array items) h
  | record {typeName : String} {fields : List (String × TypedValue)} {fieldDecls : TypeDef}
      {typeHash : Felt} {encode : FieldDecl → Felt} {h : Felt}
      (composite : TypeName.isPrimitive typeName = false)
      (declared : s.typeDef? typeName = some fieldDecls)
      (typed : s.typeHash? typeName = .ok typeHash)
      (present : ∀ f ∈ fieldDecls, (Table.find? f.name fields).isSome)
      (each : ∀ f ∈ fieldDecls, ∀ v, Table.find? f.name fields = some v →
        Encodes s f.typeName v (encode f))
      (hashed : Pedersen.hashWithLength? (typeHash :: fieldDecls.map encode) = .ok h) :
      Encodes s typeName (.record fields) h

theorem Encodes.conforms {s : Schema} {typeName : String} {v : TypedValue} {h : Felt}
    (encodes : s.Encodes typeName v h) : s.Conforms typeName v := by
  induction encodes with
  | element element value => exact .element element value
  | array array each _ => exact .array array fun v member => ⟨_, each v member⟩
  | record composite declared _ present _ _ ih => exact .record composite declared present ih

theorem encoding?_of_encodes {s : Schema} {typeName : String} {v : TypedValue} {h : Felt}
    (encodes : s.Encodes typeName v h) : s.encoding? typeName v = .ok h := by
  induction encodes with
  | element element value => rw [element, encoding?_felt, value]
  | array array each hashed =>
    rw [array, encoding?_feltArray, TypedValue.arrayHash?_array, TypedValue.toFelts?_eq_mapM,
      mapM_eq_ok_map each, ok_bind, hashed]
  | @record typeName fields fieldDecls _ encode _ composite declared typed present _ hashed ih =>
    have encoded : ∀ f ∈ fieldDecls, s.declaredEncoding? typeName fields f = .ok (encode f) := by
      intro f member
      obtain ⟨v, found⟩ := Option.isSome_iff_exists.mp (present f member)
      exact declaredEncoding?_eq_ok_iff.mpr ⟨v, found, ih f member v found⟩
    rw [encoding?_of_not_primitive composite, structHash?_of_declared declared typed,
      mapM_eq_ok_map encoded, ok_bind, hashed]

theorem encodes_of_encoding? {s : Schema} {typeName : String} {v : TypedValue} {h : Felt}
    (run : s.encoding? typeName v = .ok h) : s.Encodes typeName v h := by
  induction v using TypedValue.field_induction generalizing typeName h with
  | step v ih =>
    rcases TypeName.kind_cases typeName with rfl | rfl | composite
    · rw [encoding?_felt] at run
      exact .element rfl run
    · rw [encoding?_feltArray] at run
      obtain ⟨items, es, rfl, elements, hashed⟩ := TypedValue.arrayHash?_eq_ok_iff.mp run
      rw [TypedValue.toFelts?_eq_mapM] at elements
      obtain ⟨encode, each, rfl⟩ := exists_map_of_mapM_eq_ok elements
      exact .array rfl each hashed
    · rw [encoding?_of_not_primitive composite] at run
      obtain ⟨fields, elements, rfl, found, hashed⟩ := structHash?_eq_ok_iff.mp run
      obtain ⟨fieldDecls, typeHash, encodings, resolved, typed, encoded, rfl⟩ :=
        elements?_eq_ok_iff.mp found
      obtain ⟨encode, each, rfl⟩ := exists_map_of_mapM_eq_ok encoded
      refine .record composite (resolve?_eq_ok_iff.mp resolved) typed ?_ ?_ hashed
      · intro f member
        obtain ⟨w, found, _⟩ := declaredEncoding?_eq_ok_iff.mp (each f member)
        rw [found]
        rfl
      · intro f member w found
        obtain ⟨_, found', encoding⟩ := declaredEncoding?_eq_ok_iff.mp (each f member)
        cases found.symm.trans found'
        exact ih fields f.name w rfl found encoding

/-- The encoding of a value is the only one that the relation allows. -/
theorem encodes_iff {s : Schema} {typeName : String} {v : TypedValue} {h : Felt} :
    s.Encodes typeName v h ↔ s.encoding? typeName v = .ok h :=
  ⟨encoding?_of_encodes, encodes_of_encoding?⟩

/-! ## Offending places -/

/-- The first place, depth first in declared order, at which a value does not conform, by the kind
of the fault there: a missing field or another shape than the type asks for is a failed resolution
of types, and a scalar that is no element has the kind of its own fault. -/
inductive FirstOffence (s : Schema) : String → TypedValue → ErrorKind → Prop
  | shape {typeName : String} {v : TypedValue} (misfit : ¬ v.Fits typeName) :
      FirstOffence s typeName v .typeResolution
  | scalar {typeName : String} {x : Scalar} {cause : FeltError}
      (element : typeName = TypeName.felt) (refused : x.toFelt? = .error cause) :
      FirstOffence s typeName (.scalar x) cause.kind
  | item {typeName : String} {before after : List TypedValue} {v : TypedValue} {kind : ErrorKind}
      (array : typeName = TypeName.feltArray)
      (fine : ∀ w ∈ before, s.Conforms TypeName.felt w)
      (here : FirstOffence s TypeName.felt v kind) :
      FirstOffence s typeName (.array (before ++ v :: after)) kind
  | missing {typeName : String} {fields : List (String × TypedValue)} {before after : TypeDef}
      {f : FieldDecl} (composite : TypeName.isPrimitive typeName = false)
      (declared : s.typeDef? typeName = some (before ++ f :: after))
      (fine : ∀ g ∈ before, s.FieldConforms fields g)
      (missing : Table.find? f.name fields = none) :
      FirstOffence s typeName (.record fields) .typeResolution
  | field {typeName : String} {fields : List (String × TypedValue)} {before after : TypeDef}
      {f : FieldDecl} {v : TypedValue} {kind : ErrorKind}
      (composite : TypeName.isPrimitive typeName = false)
      (declared : s.typeDef? typeName = some (before ++ f :: after))
      (fine : ∀ g ∈ before, s.FieldConforms fields g)
      (found : Table.find? f.name fields = some v)
      (here : FirstOffence s f.typeName v kind) :
      FirstOffence s typeName (.record fields) kind

theorem not_fieldConforms_of_missing {s : Schema} {fields : List (String × TypedValue)}
    {f : FieldDecl} (missing : Table.find? f.name fields = none) : ¬ s.FieldConforms fields f := by
  rintro ⟨v, found, _⟩
  cases missing.symm.trans found

theorem not_fieldConforms_of_found {s : Schema} {fields : List (String × TypedValue)}
    {f : FieldDecl} {v : TypedValue} (found : Table.find? f.name fields = some v)
    (offends : ¬ s.Conforms f.typeName v) : ¬ s.FieldConforms fields f := by
  rintro ⟨_, found', conforms⟩
  cases found.symm.trans found'
  exact offends conforms

theorem FirstOffence.not_conforms {s : Schema} {typeName : String} {v : TypedValue}
    {kind : ErrorKind} (offence : s.FirstOffence typeName v kind) : ¬ s.Conforms typeName v := by
  induction offence with
  | shape misfit => exact fun conforms => misfit conforms.fits
  | scalar element refused =>
    rw [element, conforms_felt_iff]
    rintro ⟨e, value⟩
    cases refused.symm.trans (mapError_eq_ok_iff.mp value)
  | item array fine here ih =>
    intro conforms
    cases conforms with
    | element _ value => cases value
    | array _ each =>
      exact ih (conforms_felt_iff.mpr (each _ List.mem_append_cons_self))
  | missing composite declared fine missing =>
    rw [conforms_record_iff composite declared]
    intro each
    exact not_fieldConforms_of_missing missing (each _ List.mem_append_cons_self)
  | field composite declared fine found here ih =>
    rw [conforms_record_iff composite declared]
    intro each
    exact not_fieldConforms_of_found found ih (each _ List.mem_append_cons_self)

/-- A value has at most one first offending place. -/
theorem FirstOffence.kind_eq {s : Schema} {typeName : String} {v : TypedValue}
    {kind kind' : ErrorKind} (first : s.FirstOffence typeName v kind)
    (second : s.FirstOffence typeName v kind') : kind = kind' := by
  induction first generalizing kind' with
  | shape misfit =>
    cases second with
    | shape _ => rfl
    | scalar element _ => exact absurd element misfit
    | item array _ _ => exact absurd array misfit
    | missing composite _ _ _ => exact absurd composite misfit
    | field composite _ _ _ _ => exact absurd composite misfit
  | scalar element refused =>
    cases second with
    | shape misfit => exact absurd element misfit
    | scalar _ refused' =>
      cases refused.symm.trans refused'
      rfl
  | @item _ before after v _ array fine here ih =>
    generalize items_eq : before ++ v :: after = items at second
    cases second with
    | shape misfit => exact absurd array misfit
    | item _ fine' here' =>
      cases eq_of_first_failing items_eq fine fine' here.not_conforms here'.not_conforms
      exact ih here'
  | missing composite declared fine missing =>
    cases second with
    | shape misfit => exact absurd composite misfit
    | missing _ _ _ _ => rfl
    | field _ declared' fine' found' here' =>
      cases eq_of_first_failing (Option.some.inj (declared.symm.trans declared')) fine fine'
        (not_fieldConforms_of_missing missing)
        (not_fieldConforms_of_found found' here'.not_conforms)
      cases missing.symm.trans found'
  | field composite declared fine found here ih =>
    cases second with
    | shape misfit => exact absurd composite misfit
    | missing _ declared' fine' missing' =>
      cases eq_of_first_failing (Option.some.inj (declared.symm.trans declared')) fine fine'
        (not_fieldConforms_of_found found here.not_conforms)
        (not_fieldConforms_of_missing missing')
      cases found.symm.trans missing'
    | field _ declared' fine' found' here' =>
      cases eq_of_first_failing (Option.some.inj (declared.symm.trans declared')) fine fine'
        (not_fieldConforms_of_found found here.not_conforms)
        (not_fieldConforms_of_found found' here'.not_conforms)
      cases found.symm.trans found'
      exact ih here'

theorem FirstOffence.kind_cases {s : Schema} {typeName : String} {v : TypedValue}
    {kind : ErrorKind} (offence : s.FirstOffence typeName v kind) :
    kind = .typeResolution ∨ kind = .outOfRange ∨ kind = .invalidEncoding := by
  induction offence with
  | shape _ | missing _ _ _ _ => exact Or.inl rfl
  | scalar _ _ => exact Or.inr (FeltError.kind_cases _)
  | item _ _ _ ih | field _ _ _ _ _ ih => exact ih

/-! ## Failures -/

/-- A pair collides that is hashed for one of the lists below the encoding. -/
def CollidesBelow (s : Schema) (typeName : String) (v : TypedValue) : Prop :=
  ∃ xs, s.HashesBelow typeName v xs ∧ ∃ p ∈ Pedersen.hashedPairs xs,
    Pedersen.hash? [p.1, p.2] = .error (.point .pedersenCollision)

/-- Types that a place can have: the primitive and the declared ones. -/
def Known (s : Schema) (typeName : String) : Prop :=
  TypeName.isPrimitive typeName = false → ∃ fieldDecls, s.typeDef? typeName = some fieldDecls

theorem Accepted.known_of_declared {s : Schema} (accepted : s.Accepted) {typeName : String}
    {fieldDecls : TypeDef} (declared : s.typeDef? typeName = some fieldDecls) {f : FieldDecl}
    (member : f ∈ fieldDecls) : s.Known f.typeName := by
  intro composite
  have declared := accepted.typeDef?_eq_some_iff.mp declared
  have refers : Dependencies.Refers s.types (TypeName.canonical typeName) f.typeName :=
    ⟨fieldDecls, f, declared, member, rfl, composite⟩
  obtain ⟨⟨name, d⟩, declared', named⟩ := List.mem_map.mp (accepted.closed _ _ refers)
  rw [← named]
  exact ⟨d, accepted.typeDef?_of_mem declared'⟩

theorem Accepted.composite_of_declared {s : Schema} (accepted : s.Accepted) {typeName : String}
    {fieldDecls : TypeDef} (declared : s.typeDef? typeName = some fieldDecls) :
    TypeName.isPrimitive typeName = false := by
  obtain ⟨_, _, _, wf, same⟩ := accepted.exists_wellFormed
  have member := Table.mem_keys_of_mem (same.mem_iff.mp (accepted.typeDef?_eq_some_iff.mp declared))
  have canonical := isPrimitive_eq_false_iff.mpr (wf.composite _ member)
  by_cases respelled : typeName = TypeName.domainAlias
  · rw [respelled]
    decide
  · rwa [TypeName.canonical, if_neg respelled] at canonical

theorem Accepted.exists_typeHash?_eq_ok {s : Schema} (accepted : s.Accepted) {typeName : String}
    {fieldDecls : TypeDef} (declared : s.typeDef? typeName = some fieldDecls) :
    ∃ typeHash, s.typeHash? typeName = .ok typeHash := by
  obtain ⟨names, unfolds⟩ := Dependencies.exists_unfolds accepted.distinct accepted.closed
    accepted.acyclic (accepted.typeDef?_eq_some_iff.mp declared)
  obtain ⟨_, _, _, text⟩ := accepted.exists_typeText?_eq declared unfolds
  rw [typeHash?, text]
  exact ⟨_, rfl⟩

/-- The error is the collision of a pair below the value, or that of the first offence. -/
def Explains (s : Schema) (typeName : String) (v : TypedValue) (e : Error) : Prop :=
  (e = .point .pedersenCollision ∧ s.CollidesBelow typeName v) ∨
    (s.FirstOffence typeName v e.kind ∧ e.isUndeclared = false)

theorem explains_of_misfit {s : Schema} {typeName : String} {v : TypedValue} {fault : SchemaFault}
    (misfit : ¬ v.Fits typeName) (other : fault.isUndeclared = false) :
    s.Explains typeName v (.schema fault) :=
  Or.inr ⟨.shape misfit, other⟩

theorem explains_of_hashWithLength? {s : Schema} {typeName : String} {v : TypedValue}
    {xs : List Felt} {e : Error} (below : s.HashesBelow typeName v xs)
    (run : Pedersen.hashWithLength? xs = .error e) : s.Explains typeName v e := by
  rcases Pedersen.hashWithLength?_outcome xs with ⟨collides, pair⟩ | ⟨h, hashed⟩
  · cases collides.symm.trans run
    exact Or.inl ⟨rfl, xs, below, pair⟩
  · cases hashed.symm.trans run

theorem offence_of_toFelt? {s : Schema} {v : TypedValue} {e : Error}
    (run : v.toFelt? = .error e) :
    s.FirstOffence TypeName.felt v e.kind ∧ e.isUndeclared = false := by
  have not_array : TypeName.felt ≠ TypeName.feltArray := by decide
  have not_composite : TypeName.isPrimitive TypeName.felt ≠ false := by decide
  cases v with
  | scalar x =>
    obtain ⟨cause, refused, rfl⟩ := mapError_eq_error_iff.mp run
    exact ⟨.scalar rfl refused, rfl⟩
  | array items =>
    cases run
    exact ⟨.shape not_array, rfl⟩
  | record fields =>
    cases run
    exact ⟨.shape not_composite, rfl⟩

theorem explains_of_arrayHash? {s : Schema} {v : TypedValue} {e : Error}
    (run : v.arrayHash? = .error e) : s.Explains TypeName.feltArray v e := by
  have not_element : TypeName.feltArray ≠ TypeName.felt := by decide
  have not_composite : TypeName.isPrimitive TypeName.feltArray ≠ false := by decide
  cases v with
  | scalar x =>
    cases run
    exact explains_of_misfit not_element rfl
  | record fields =>
    cases run
    exact explains_of_misfit not_composite rfl
  | array items =>
    rw [TypedValue.arrayHash?_array] at run
    rcases bind_eq_error_iff.mp run with refused | ⟨es, elements, hashed⟩
    · rw [TypedValue.toFelts?_eq_mapM] at refused
      obtain ⟨before, v, after, rfl, each, fails⟩ := mapM_eq_error_iff.mp refused
      obtain ⟨offence, declared⟩ := offence_of_toFelt? fails
      have fine : ∀ w ∈ before, s.Conforms TypeName.felt w := fun w member =>
        conforms_felt_iff.mpr (each w member)
      exact Or.inr ⟨.item rfl fine offence, declared⟩
    · exact explains_of_hashWithLength? (.array elements) hashed

/-- A field fails where the fields before it do not: it is missing, or its value explains why. -/
theorem explains_of_declaredEncoding? {s : Schema} {typeName : String}
    {fields : List (String × TypedValue)} {before after : TypeDef} {f : FieldDecl} {e : Error}
    (composite : TypeName.isPrimitive typeName = false)
    (declared : s.typeDef? typeName = some (before ++ f :: after))
    (fine : ∀ g ∈ before, s.FieldConforms fields g)
    (run : s.declaredEncoding? typeName fields f = .error e)
    (below : ∀ w cause, Table.find? f.name fields = some w →
      s.encoding? f.typeName w = .error cause → s.Explains f.typeName w cause) :
    s.Explains typeName (.record fields) e := by
  rw [declaredEncoding?] at run
  cases found : Table.find? f.name fields with
  | none =>
    rw [found] at run
    cases run
    exact Or.inr ⟨.missing composite declared fine found, rfl⟩
  | some w =>
    rw [found] at run
    obtain ⟨cause, refused, rfl⟩ := mapError_eq_error_iff.mp run
    rcases below w cause found refused with ⟨rfl, xs, hashes, pair⟩ | ⟨offence, other⟩
    · have resolved := resolve?_eq_ok_iff.mpr declared
      have hashes' := HashesBelow.field composite resolved List.mem_append_cons_self found hashes
      exact Or.inl ⟨rfl, xs, hashes', pair⟩
    · rw [Explains, Error.kind_inField, Error.isUndeclared_inField]
      exact Or.inr ⟨.field composite declared fine found offence, other⟩

theorem encoding?_eq_error {s : Schema} (accepted : s.Accepted) {typeName : String}
    {v : TypedValue} {e : Error} (known : s.Known typeName)
    (run : s.encoding? typeName v = .error e) : s.Explains typeName v e := by
  -- On the value: the types that its fields are read under are known because the schema is closed.
  induction v using TypedValue.field_induction generalizing typeName e with
  | step v ih =>
    rcases TypeName.kind_cases typeName with rfl | rfl | composite
    · rw [encoding?_felt] at run
      exact Or.inr (offence_of_toFelt? run)
    · rw [encoding?_feltArray] at run
      exact explains_of_arrayHash? run
    obtain ⟨not_element, not_array⟩ := isPrimitive_eq_false_iff.mp composite
    obtain ⟨fieldDecls, declared⟩ := known composite
    obtain ⟨typeHash, typed⟩ := accepted.exists_typeHash?_eq_ok declared
    rw [encoding?_of_not_primitive composite] at run
    cases v with
    | scalar x =>
      rw [structHash?_of_not_record (TypedValue.scalar_ne_record x), resolve?_eq_ok_iff.mpr declared,
        mapError_ok, ok_bind] at run
      cases run
      exact explains_of_misfit not_element rfl
    | array items =>
      rw [structHash?_of_not_record (TypedValue.array_ne_record items), resolve?_eq_ok_iff.mpr declared,
        mapError_ok, ok_bind] at run
      cases run
      exact explains_of_misfit not_array rfl
    | record fields =>
      rw [structHash?_of_declared declared typed] at run
      rcases bind_eq_error_iff.mp run with refused | ⟨encodings, encoded, hashed⟩
      · obtain ⟨before, f, after, rfl, each, fails⟩ := mapM_eq_error_iff.mp refused
        -- The fields before it have encodings, so that this one is the first not to conform.
        have fine : ∀ g ∈ before, s.FieldConforms fields g := by
          intro g member
          obtain ⟨_, encoded⟩ := each g member
          obtain ⟨w, found, encoding⟩ := declaredEncoding?_eq_ok_iff.mp encoded
          exact ⟨w, found, (encodes_of_encoding? encoding).conforms⟩
        apply explains_of_declaredEncoding? composite declared fine fails
        intro w cause found refused
        have known := accepted.known_of_declared declared List.mem_append_cons_self
        exact ih fields f.name w rfl found known refused
      · have elements : s.elements? typeName fields = .ok (typeHash :: encodings) :=
          elements?_eq_ok_iff.mpr ⟨fieldDecls, typeHash, encodings,
            resolve?_eq_ok_iff.mpr declared, typed, encoded, rfl⟩
        exact explains_of_hashWithLength? (.record composite elements) hashed

/-- Under a declared type of an accepted schema the hash of a value has one of three outcomes: the
collision of a pair hashed on the way; for a value that conforms, its encoding; for any other, the
fault of the first offending place. That a type is not declared is only ever said of the name that
was asked for. -/
theorem structHash?_outcome {s : Schema} (accepted : s.Accepted) (typeName : String)
    (v : TypedValue) :
    (s.typeDef? typeName = none →
      s.structHash? typeName v = .error (.schema (.undeclared typeName))) ∧
    ∀ fieldDecls, s.typeDef? typeName = some fieldDecls →
      (s.structHash? typeName v = .error (.point .pedersenCollision) ∧
        s.CollidesBelow typeName v) ∨
      (s.Conforms typeName v ∧
        ∃ h, s.structHash? typeName v = .ok h ∧ ∀ h', s.Encodes typeName v h' ↔ h' = h) ∨
      (¬ s.Conforms typeName v ∧
        ∃ e, s.structHash? typeName v = .error e ∧ e.isUndeclared = false ∧
          (∀ kind, s.FirstOffence typeName v kind ↔ kind = e.kind) ∧
          (e.kind = .typeResolution ∨ e.kind = .outOfRange ∨ e.kind = .invalidEncoding)) := by
  refine ⟨fun undeclared => structHash?_of_undeclared undeclared v, ?_⟩
  intro fieldDecls declared
  have composite := accepted.composite_of_declared declared
  have known : s.Known typeName := fun _ => ⟨fieldDecls, declared⟩
  simp only [encodes_iff, encoding?_of_not_primitive composite]
  cases run : s.structHash? typeName v with
  | ok h =>
    rw [← encoding?_of_not_primitive composite] at run
    refine Or.inr (Or.inl ⟨(encodes_of_encoding? run).conforms, h, rfl, ?_⟩)
    intro h'
    constructor
    · rintro ⟨⟩; rfl
    · rintro rfl; rfl
  | error e =>
    rw [← encoding?_of_not_primitive composite] at run
    rcases encoding?_eq_error accepted known run with ⟨rfl, collides⟩ | ⟨offence, other⟩
    · exact Or.inl ⟨rfl, collides⟩
    · refine Or.inr (Or.inr ⟨offence.not_conforms, e, rfl, other, ?_, offence.kind_cases⟩)
      intro kind
      constructor
      · intro offence'; exact offence'.kind_eq offence
      · rintro rfl; exact offence

/-- A record whose first declared field is refused is refused with it. -/
theorem Accepted.structHash?_of_first_field {s : Schema} (accepted : s.Accepted)
    {typeName : String} {f : FieldDecl} {rest : TypeDef} {fields : List (String × TypedValue)}
    {v : TypedValue} {e : Error} (declared : s.typeDef? typeName = some (f :: rest))
    (found : Table.find? f.name fields = some v) (refused : s.encoding? f.typeName v = .error e) :
    s.structHash? typeName (.record fields) = .error (e.inField typeName f.name) := by
  obtain ⟨typeHash, typed⟩ := accepted.exists_typeHash?_eq_ok declared
  have fails : s.declaredEncoding? typeName fields f = .error (e.inField typeName f.name) := by
    rw [declaredEncoding?, found]
    exact mapError_eq_error_iff.mpr ⟨e, refused, rfl⟩
  rw [structHash?_of_declared declared typed, List.mapM_cons, fails, error_bind, error_bind]

/-- An identity that is too long for a short string. -/
def longId : Scalar :=
  .shortString "an identity of more than thirty-one bytes"

def longParty : List (String × TypedValue) :=
  [("id", .scalar longId)]

/-- A payment with one party only, and that one without a limit. -/
def longPayment : TypedValue :=
  .record [("from", .record longParty)]

theorem structHash?_longPayment :
    payment.structHash? "Payment" longPayment = .error (.felt (.tooManyBytes 41)) := by
  have party : payment.typeDef? "Party" = some partyFields := by decide
  have whole : payment.typeDef? "Payment" = some paymentFields := by decide
  have atId : payment.encoding? TypeName.felt (.scalar longId) =
      .error (.felt (.tooManyBytes 41)) := by
    rw [encoding?_felt]
    rfl
  have found : Table.find? "id" longParty = some (.scalar longId) := rfl
  have atFrom : payment.encoding? "Party" (.record longParty) =
      .error (.felt (.tooManyBytes 41)) := by
    rw [encoding?_of_not_primitive (by decide)]
    exact accepted_payment.structHash?_of_first_field party found atId
  have found' : Table.find? "from" [("from", TypedValue.record longParty)] =
    some (.record longParty) := rfl
  exact accepted_payment.structHash?_of_first_field whole found' atFrom

/-- A payment whose first party has too long an identity is refused for that, although the other
fields are missing; a record of the name conforms to a domain type of the name. -/
theorem structHash?_outcome_payment_and_name :
    (payment.Accepted ∧ payment.typeDef? "Payment" = some paymentFields ∧
      payment.structHash? "Payment" longPayment = .error (.felt (.tooManyBytes 41)) ∧
      ¬ payment.Conforms "Payment" longPayment ∧
      ∀ kind, payment.FirstOffence "Payment" longPayment kind ↔ kind = .outOfRange) ∧
    (nameOnly ⟨"5", "1", "1"⟩).Accepted ∧
      (nameOnly ⟨"5", "1", "1"⟩).Conforms TypeName.domain (.record [("name", .infer "5")]) ∧
      ∃ h, (nameOnly ⟨"5", "1", "1"⟩).structHash? TypeName.domain
          (.record [("name", .infer "5")]) = .ok h ∧
        (nameOnly ⟨"5", "1", "1"⟩).Encodes TypeName.domain (.record [("name", .infer "5")]) h := by
  constructor
  · have declared : payment.typeDef? "Payment" = some paymentFields := by decide
    have run := structHash?_longPayment
    obtain ⟨-, outcome⟩ := structHash?_outcome accepted_payment "Payment" longPayment
    rcases outcome _ declared with
      ⟨collides, _⟩ | ⟨_, _, hashed, _⟩ | ⟨unfit, e, refused, _, first, _⟩
    · cases run.symm.trans collides
    · cases run.symm.trans hashed
    · cases run.symm.trans refused
      exact ⟨accepted_payment, declared, run, unfit, first⟩
  · have element : (Scalar.infer "5").toFelt? = .ok five := eq_ok_of_toOption (by decide +kernel)
    have accepted : (nameOnly ⟨"5", "1", "1"⟩).Accepted := accepted_nameOnly element
    have declared := resolve?_eq_ok_iff.mp (resolve?_nameOnly ⟨"5", "1", "1"⟩)
    have runs : (Pedersen.runWithLength? [nameOnlyTypeHash, five]).isSome = true := by
      decide +kernel
    obtain ⟨h, run⟩ := Option.isSome_iff_exists.mp runs
    have value : (TypedValue.infer "5").toFelt? = .ok five := by
      rw [TypedValue.infer, TypedValue.toFelt?, element]
      rfl
    have hashed : (nameOnly ⟨"5", "1", "1"⟩).structHash? TypeName.domain
        (.record [("name", .infer "5")]) = .ok h :=
      structHash?_nameOnly rfl value run
    obtain ⟨-, outcome⟩ := structHash?_outcome accepted TypeName.domain
      (.record [("name", .infer "5")])
    rcases outcome _ declared with
      ⟨collides, _⟩ | ⟨conforms, h', hashed', only⟩ | ⟨_, _, refused, _⟩
    · cases hashed.symm.trans collides
    · exact ⟨accepted, conforms, h', hashed', (only h').mpr rfl⟩
    · cases hashed.symm.trans refused

end Schema
end StarkSigning

import StarkSigning.Proofs.TypedData.Conformance
import StarkSigning.Proofs.TypedData.Decoding

/-!
# StarkSigning.Proofs.TypedData.Locality

The texts and hashes of a type depend on no more of a schema than the type and what it refers to.
Two schemas may differ in all other types, in their primary types and in their domains: if they
define the type, and every type that it refers to directly or through others, in the same way, then
its text and its hash are the same in both, and so is what becomes of any value under it.

* `SameBelow`: the two schemas agree on a type and on what it refers to.
* `Unfolds.of_same`: an unfolding is one in every table that agrees on the types it names.
* `SameBelow.typeText?_eq`, `SameBelow.structHash?_eq`: one text, and one outcome for every value.
* `hashes_eq_of_sameBelow`: all of it, for accepted schemas.
-/

namespace StarkSigning

theorem Dependencies.Unfolds.of_same {types types' : Table TypeDef}
    (distinct : (Table.keys types).Nodup) (distinct' : (Table.keys types').Nodup)
    {fields : List FieldDecl} {names : List String} (unfolds : Unfolds types fields names)
    (same : ∀ name ∈ names, Table.find? name types = Table.find? name types') :
    Unfolds types' fields names := by
  induction unfolds with
  | nil => exact .nil
  | primitive primitive _ ih => exact .primitive primitive (ih same)
  | composite composite declared _ _ ih ih' =>
    obtain ⟨here, later⟩ := List.forall_mem_cons.mp same
    obtain ⟨below, after⟩ := List.forall_mem_append.mp later
    rw [← Table.find?_eq_some_iff distinct, here, Table.find?_eq_some_iff distinct'] at declared
    exact .composite composite declared (ih below) (ih' after)

namespace Schema

open Dependencies Outcome

/-- The schemas define the type in the same way, and every type that it refers to, directly or
through others. -/
def SameBelow (s s' : Schema) (name : String) : Prop :=
  ∀ other, Relation.ReflTransGen (Refers s.types) (TypeName.canonical name) other →
    s.typeDef? other = s'.typeDef? other

variable {s s' : Schema} {name : String}

theorem SameBelow.typeDef?_eq (same : SameBelow s s' name) :
    s.typeDef? name = s'.typeDef? name := by
  have here := same _ .refl
  rwa [typeDef?, typeDef?, TypeName.canonical_canonical] at here

/-- What is referred to goes under its canonical name. -/
theorem Accepted.canonical_of_transGen (accepted : s.Accepted) {other : String}
    (reaches : Relation.TransGen (Refers s.types) name other) :
    TypeName.canonical other = other := by
  obtain ⟨_, _, d, f, member, field, rfl, _⟩ := Relation.TransGen.tail'_iff.mp reaches
  exact (accepted.canonical_eq member).2 f field

theorem SameBelow.find?_eq (accepted : s.Accepted) (same : SameBelow s s' name) {other : String}
    (reaches : Relation.TransGen (Refers s.types) (TypeName.canonical name) other) :
    Table.find? other s.types = Table.find? other s'.types := by
  have there := same other reaches.to_reflTransGen
  rwa [typeDef?, typeDef?, accepted.canonical_of_transGen reaches] at there

/-- Agreement passes to the types of the fields. -/
theorem SameBelow.field (accepted : s.Accepted) (same : SameBelow s s' name) {d : TypeDef}
    (declared : s.typeDef? name = some d) {f : FieldDecl} (field : f ∈ d)
    (composite : TypeName.isPrimitive f.typeName = false) : SameBelow s s' f.typeName := by
  have member := accepted.typeDef?_eq_some_iff.mp declared
  have refers : Refers s.types (TypeName.canonical name) f.typeName :=
    ⟨d, f, member, field, rfl, composite⟩
  intro other reaches
  rw [(accepted.canonical_eq member).2 f field] at reaches
  exact same other (.head refers reaches)

theorem SameBelow.typeText?_eq (accepted : s.Accepted) (accepted' : s'.Accepted)
    (same : SameBelow s s' name) : s.typeText? name = s'.typeText? name := by
  have sameDef := same.typeDef?_eq
  cases declared : s.typeDef? name with
  | none => rw [typeText?, typeText?, resolve?, resolve?, ← sameDef, declared]
  | some d =>
    have declared' : s'.typeDef? name = some d := sameDef.symm.trans declared
    have member := accepted.typeDef?_eq_some_iff.mp declared
    obtain ⟨names, unfolds⟩ :=
      exists_unfolds accepted.distinct accepted.closed accepted.acyclic member
    have sameNames : ∀ other ∈ names, Table.find? other s.types = Table.find? other s'.types := by
      intro other listed
      rw [unfolds.mem_iff_transGen accepted.distinct member] at listed
      exact same.find?_eq accepted listed
    have unfolds' := unfolds.of_same accepted.distinct accepted'.distinct sameNames
    obtain ⟨others, keys, members, text⟩ := accepted.exists_typeText?_eq declared unfolds
    obtain ⟨others', keys', members', text'⟩ := accepted'.exists_typeText?_eq declared' unfolds'
    -- Both texts write the types of one unfolding, with the definitions that the schemas share.
    have shared : others ⊆ s'.types := by
      rintro ⟨other, fields⟩ listed
      have inNames : other ∈ names := by
        rw [← List.mem_eraseDups, ← keys]
        exact Table.mem_keys_of_mem listed
      have found := members _ listed
      rwa [← Table.find?_eq_some_iff accepted.distinct, sameNames other inNames,
        Table.find?_eq_some_iff accepted'.distinct] at found
    have sameOthers : others = others' :=
      Table.eq_of_keys_eq accepted'.distinct shared members' (keys.trans keys'.symm)
    rw [text, text', sameOthers]

theorem SameBelow.typeHash?_eq (accepted : s.Accepted) (accepted' : s'.Accepted)
    (same : SameBelow s s' name) : s.typeHash? name = s'.typeHash? name := by
  rw [typeHash?, typeHash?, same.typeText?_eq accepted accepted']

/-- Only the encoding of a record depends on the schema. -/
theorem encoding?_congr {typeName : String} {v : TypedValue}
    (records : TypeName.isPrimitive typeName = false →
      s.structHash? typeName v = s'.structHash? typeName v) :
    s.encoding? typeName v = s'.encoding? typeName v := by
  rcases TypeName.kind_cases typeName with rfl | rfl | composite
  · rw [encoding?_felt, encoding?_felt]
  · rw [encoding?_feltArray, encoding?_feltArray]
  · rw [encoding?_of_not_primitive composite, encoding?_of_not_primitive composite,
      records composite]

theorem SameBelow.structHash?_eq (accepted : s.Accepted) (accepted' : s'.Accepted)
    (same : SameBelow s s' name) (v : TypedValue) :
    s.structHash? name v = s'.structHash? name v := by
  -- On the value: its fields are read under types that the type refers to, where the schemas agree.
  induction v using TypedValue.field_induction generalizing name with
  | step v ih =>
    have sameDef := same.typeDef?_eq
    cases declared : s.typeDef? name with
    | none =>
      rw [structHash?_of_undeclared declared, structHash?_of_undeclared (sameDef ▸ declared)]
    | some d =>
      have declared' : s'.typeDef? name = some d := sameDef.symm.trans declared
      have resolved : s.resolve? name = s'.resolve? name := by
        rw [resolve?, resolve?, declared, declared']
      rcases v.record_or_not with ⟨fields, rfl⟩ | shape
      · obtain ⟨typeHash, typed⟩ := accepted.exists_typeHash?_eq_ok declared
        have typed' : s'.typeHash? name = .ok typeHash :=
          (same.typeHash?_eq accepted accepted').symm.trans typed
        have each : ∀ f ∈ d,
            s.declaredEncoding? name fields f = s'.declaredEncoding? name fields f := by
          intro f field
          rw [declaredEncoding?, declaredEncoding?]
          cases found : Table.find? f.name fields with
          | none => rfl
          | some w =>
            dsimp only
            rw [encoding?_congr fun composite =>
              ih fields f.name w rfl found (same.field accepted declared field composite)]
        rw [structHash?_of_declared declared typed, structHash?_of_declared declared' typed',
          mapM_congr each]
      · rw [structHash?_of_not_record shape, structHash?_of_not_record shape, resolved]

/-- Where two accepted schemas define a type and all that it refers to in the same way, whatever
else they declare, its text and its hash are the same, and every value has the same hash under it
or is refused for the same reason. -/
theorem hashes_eq_of_sameBelow (accepted : s.Accepted) (accepted' : s'.Accepted)
    (same : SameBelow s s' name) :
    s.typeText? name = s'.typeText? name ∧ s.typeHash? name = s'.typeHash? name ∧
      ∀ v, s.structHash? name v = s'.structHash? name v :=
  ⟨same.typeText?_eq accepted accepted', same.typeHash?_eq accepted accepted',
    same.structHash?_eq accepted accepted'⟩

theorem sameBelow_payment : SameBelow payment ledger "Payment" := by
  intro other reaches
  rcases Relation.reflTransGen_iff_eq_or_transGen.mp reaches with rfl | below
  · decide
  · have declared : ("Payment", paymentFields) ∈ payment.types := by decide
    have unfolds : Unfolds payment.types paymentFields paymentUnfolding :=
      unfolds_payment (by decide) (by decide)
    have agree : ∀ name ∈ paymentUnfolding, payment.typeDef? name = ledger.typeDef? name := by
      decide
    exact agree other ((unfolds.mem_iff_transGen accepted_payment.distinct declared).mpr below)

/-- A payment is refused in the schema of a ledger for what it is refused for in its own schema,
although the primary type and the domain are others there. -/
theorem hashes_eq_of_sameBelow_payment :
    payment.Accepted ∧ ledger.Accepted ∧ SameBelow payment ledger "Payment" ∧
      payment.primary ≠ ledger.primary ∧ payment.domain ≠ ledger.domain ∧
      payment.typeText? "Payment" = ledger.typeText? "Payment" ∧
      payment.typeHash? "Payment" = ledger.typeHash? "Payment" ∧
      ledger.structHash? "Payment" longPayment = .error (.felt (.tooManyBytes 41)) := by
  obtain ⟨text, hash, values⟩ :=
    hashes_eq_of_sameBelow accepted_payment accepted_ledger sameBelow_payment
  refine ⟨accepted_payment, accepted_ledger, sameBelow_payment, by decide, by decide, text, hash, ?_⟩
  rw [← values longPayment, structHash?_longPayment]

end Schema
end StarkSigning

import StarkSigning.Proofs.Hash.Binding
import StarkSigning.Proofs.TypedData.Hashing
import StarkSigning.Proofs.TypedData.Schema

/-!
# StarkSigning.Proofs.TypedData.Binding

The hash of a message binds the account, the domain and the value. Of two messages with one hash
either two different pairs collide under the two-to-one hash, both hashed on the way to that
hash, or the parts are equal: first the hashes of the parts, and, under one table of types, level
by level the elements that the hashes of the parts were made of.

* `HashesBelow`, `HashesFor`: the lists that the encoding of a value and the hash of a message hash.
* `EncodesAlike`: two values have the same elements in all places that their type declares.
* `encoding?_binding`: one encoding under one type means `EncodesAlike` or a collision.
* `messageHash?_binding`: one hash of two messages.
-/

namespace StarkSigning

namespace TypedValue

mutual

/-- Every array that stands in the value, or in a field at any depth, is shorter than `2 ^ 64`. -/
def ArraysShort : TypedValue → Prop
  | .scalar _ => True
  | .array items => items.length < 2 ^ 64
  | .record fields => ArraysShortIn fields

def ArraysShortIn : List (String × TypedValue) → Prop
  | [] => True
  | (_, v) :: rest => v.ArraysShort ∧ ArraysShortIn rest

end

theorem ArraysShortIn.of_find? {name : String} {fields : List (String × TypedValue)}
    {v : TypedValue} (short : ArraysShortIn fields) (found : Table.find? name fields = some v) :
    v.ArraysShort := by
  induction fields with
  | nil => cases found
  | cons pair rest ih =>
    obtain ⟨key, w⟩ := pair
    rw [ArraysShortIn] at short
    rw [Table.find?] at found
    split at found
    · cases found
      exact short.1
    · exact ih short.2 found

theorem arraysShort_domain (d : Domain) : d.toValue.ArraysShort := by
  simp [Domain.toValue_eq, ArraysShort, ArraysShortIn, infer]

end TypedValue

namespace Schema

open Outcome

/-- The lists of elements that the encoding of a value under the name of a type hashes: the items
of an array; the elements of a record, and the lists below its declared fields. -/
inductive HashesBelow (s : Schema) : String → TypedValue → List Felt → Prop
  | array {items : List TypedValue} {elements : List Felt}
      (items_eq : TypedValue.toFelts? items = .ok elements) :
      HashesBelow s TypeName.feltArray (.array items) elements
  | record {typeName : String} {fields : List (String × TypedValue)} {elements : List Felt}
      (composite : TypeName.isPrimitive typeName = false)
      (elements_eq : s.elements? typeName fields = .ok elements) :
      HashesBelow s typeName (.record fields) elements
  | field {typeName : String} {fields : List (String × TypedValue)} {fieldDecls : List FieldDecl}
      {f : FieldDecl} {v : TypedValue} {elements : List Felt}
      (composite : TypeName.isPrimitive typeName = false)
      (resolved : s.resolve? typeName = .ok fieldDecls) (declared : f ∈ fieldDecls)
      (found : Table.find? f.name fields = some v) (below : HashesBelow s f.typeName v elements) :
      HashesBelow s typeName (.record fields) elements

/-- The lists of elements that the hash of a message hashes: the list of the four parts, and the
lists below the domain and the value. -/
inductive HashesFor (s : Schema) (account : Felt) (v : TypedValue) : List Felt → Prop
  | parts {first domainHash valueHash : Felt}
      (named : Felt.ofShortString? messagePrefix = .ok first)
      (separated : s.domainHash? = .ok domainHash)
      (hashed : s.structHash? s.primary v = .ok valueHash) :
      HashesFor s account v [first, domainHash, account, valueHash]
  | domain {elements : List Felt}
      (below : HashesBelow s TypeName.domain s.domain.toValue elements) :
      HashesFor s account v elements
  | value {elements : List Felt} (below : HashesBelow s s.primary v elements) :
      HashesFor s account v elements

/-- Some pair hashed for one of these lists collides with some pair hashed for one of those. -/
def Collision (these those : List Felt → Prop) : Prop :=
  ∃ xs ys, these xs ∧ those ys ∧
    Pedersen.Collision (Pedersen.hashedPairs xs) (Pedersen.hashedPairs ys)

theorem Collision.mono {these those these' those' : List Felt → Prop}
    (collision : Collision these those) (sub : ∀ xs, these xs → these' xs)
    (sub' : ∀ ys, those ys → those' ys) : Collision these' those' := by
  obtain ⟨xs, ys, hx, hy, pairs⟩ := collision
  exact ⟨xs, ys, sub xs hx, sub' ys hy, pairs⟩

/-- Two values have the same element in every place of an element, the same elements in every
place of an array, and are alike in every field that their type declares. -/
inductive EncodesAlike (s : Schema) : String → TypedValue → TypedValue → Prop
  | element {v w : TypedValue} {e : Felt} (left : v.toFelt? = .ok e) (right : w.toFelt? = .ok e) :
      EncodesAlike s TypeName.felt v w
  | array {items items' : List TypedValue} {es : List Felt}
      (left : TypedValue.toFelts? items = .ok es) (right : TypedValue.toFelts? items' = .ok es) :
      EncodesAlike s TypeName.feltArray (.array items) (.array items')
  | record {typeName : String} {fieldDecls : List FieldDecl}
      {fields fields' : List (String × TypedValue)}
      (composite : TypeName.isPrimitive typeName = false)
      (resolved : s.resolve? typeName = .ok fieldDecls)
      (found : ∀ f ∈ fieldDecls, (Table.find? f.name fields).isSome ∧
        (Table.find? f.name fields').isSome)
      (alike : ∀ f ∈ fieldDecls, ∀ v w, Table.find? f.name fields = some v →
        Table.find? f.name fields' = some w → EncodesAlike s f.typeName v w) :
      EncodesAlike s typeName (.record fields) (.record fields')

theorem encodesAlike_felt_iff {s : Schema} {v w : TypedValue} :
    EncodesAlike s TypeName.felt v w ↔ ∃ e, v.toFelt? = .ok e ∧ w.toFelt? = .ok e := by
  constructor
  · intro alike
    generalize equal : TypeName.felt = typeName at alike
    cases alike with
    | element left right => exact ⟨_, left, right⟩
    | array left right => exact absurd equal (by decide)
    | record composite _ _ _ =>
      subst equal
      cases composite
  · rintro ⟨e, left, right⟩
    exact .element left right

theorem encodesAlike_record_iff {s : Schema} {typeName : String} {fieldDecls : List FieldDecl}
    {fields fields' : List (String × TypedValue)}
    (composite : TypeName.isPrimitive typeName = false)
    (resolved : s.resolve? typeName = .ok fieldDecls) :
    EncodesAlike s typeName (.record fields) (.record fields') ↔
      ∀ f ∈ fieldDecls, ∃ v w, Table.find? f.name fields = some v ∧
        Table.find? f.name fields' = some w ∧ EncodesAlike s f.typeName v w := by
  constructor
  · intro alike f declared
    cases alike with
    | element left right => cases composite
    | record _ resolved' found alike =>
      cases resolved.symm.trans resolved'
      obtain ⟨v, left⟩ := Option.isSome_iff_exists.mp (found f declared).1
      obtain ⟨w, right⟩ := Option.isSome_iff_exists.mp (found f declared).2
      exact ⟨v, w, left, right, alike f declared v w left right⟩
  · intro each
    refine .record composite resolved ?_ ?_
    · intro f declared
      obtain ⟨v, w, left, right, _⟩ := each f declared
      rw [left, right]
      exact ⟨rfl, rfl⟩
    · intro f declared v w foundLeft foundRight
      obtain ⟨_, _, left, right, alike⟩ := each f declared
      cases foundLeft.symm.trans left
      cases foundRight.symm.trans right
      exact alike

theorem arrayHash?_binding {s s' : Schema} {v w : TypedValue} {h : Felt}
    (first : v.arrayHash? = .ok h) (second : w.arrayHash? = .ok h)
    (short : v.ArraysShort) (short' : w.ArraysShort) :
    EncodesAlike s TypeName.feltArray v w ∨
      Collision (s.HashesBelow TypeName.feltArray v) (s'.HashesBelow TypeName.feltArray w) := by
  obtain ⟨items, es, rfl, left, run⟩ := TypedValue.arrayHash?_eq_ok_iff.mp first
  obtain ⟨items', es', rfl, right, run'⟩ := TypedValue.arrayHash?_eq_ok_iff.mp second
  rw [TypedValue.ArraysShort, ← TypedValue.length_of_toFelts? left] at short
  rw [TypedValue.ArraysShort, ← TypedValue.length_of_toFelts? right] at short'
  rcases Pedersen.hashWithLength?_binding (Felt.ofLength_eq_iff short short').mp run run' with
    rfl | collision
  · exact Or.inl (.array left right)
  · exact Or.inr ⟨es, es', .array left, .array right, collision⟩

theorem record_binding {s s' : Schema} (sameTypes : s.types = s'.types) {typeName : String}
    {fields fields' : List (String × TypedValue)} {h : Felt}
    (composite : TypeName.isPrimitive typeName = false)
    (first : s.structHash? typeName (.record fields) = .ok h)
    (second : s'.structHash? typeName (.record fields') = .ok h)
    (below : ∀ (f : FieldDecl) (v w : TypedValue) (e : Felt),
      Table.find? f.name fields = some v → Table.find? f.name fields' = some w →
      s.encoding? f.typeName v = .ok e → s'.encoding? f.typeName w = .ok e →
      EncodesAlike s f.typeName v w ∨
        Collision (s.HashesBelow f.typeName v) (s'.HashesBelow f.typeName w)) :
    EncodesAlike s typeName (.record fields) (.record fields') ∨
      Collision (s.HashesBelow typeName (.record fields))
        (s'.HashesBelow typeName (.record fields')) := by
  obtain ⟨_, elements, ⟨⟩, found, run⟩ := structHash?_eq_ok_iff.mp first
  obtain ⟨_, elements', ⟨⟩, found', run'⟩ := structHash?_eq_ok_iff.mp second
  obtain ⟨fieldDecls, typeHash, encodings, resolved, hashed, encoded, rfl⟩ :=
    elements?_eq_ok_iff.mp found
  obtain ⟨fieldDecls', typeHash', encodings', resolved', hashed', encoded', rfl⟩ :=
    elements?_eq_ok_iff.mp found'
  rw [← resolve?_congr sameTypes, resolved] at resolved'
  cases resolved'
  have sameLength : (typeHash :: encodings).length = (typeHash' :: encodings').length := by
    rw [List.length_cons, List.length_cons, length_of_mapM_eq_ok encoded,
      length_of_mapM_eq_ok encoded']
  -- Both records are of one type, so their lists have one length, whatever that is.
  rcases Pedersen.hashWithLength?_binding (fun _ => sameLength) run run' with same | collision
  · cases same
    have each := exists_of_mapM_eq_ok encoded encoded'
    by_cases collides : Collision (s.HashesBelow typeName (.record fields))
      (s'.HashesBelow typeName (.record fields'))
    · exact Or.inr collides
    · left
      apply (encodesAlike_record_iff composite resolved).mpr
      intro f declared
      obtain ⟨e, left, right⟩ := each f declared
      obtain ⟨v, foundLeft, left⟩ := declaredEncoding?_eq_ok_iff.mp left
      obtain ⟨w, foundRight, right⟩ := declaredEncoding?_eq_ok_iff.mp right
      rcases below f v w e foundLeft foundRight left right with alike | deeper
      · exact ⟨v, w, foundLeft, foundRight, alike⟩
      -- A collision below the field is one below the record, and there is none.
      · refine absurd (deeper.mono ?_ ?_) collides
        · intro xs hashes
          exact .field composite resolved declared foundLeft hashes
        · intro ys hashes
          rw [resolve?_congr sameTypes] at resolved
          exact .field composite resolved declared foundRight hashes
  · right
    exact ⟨_, _, .record composite found, .record composite found', collision⟩

theorem encoding?_binding {s s' : Schema} (sameTypes : s.types = s'.types) {typeName : String}
    {v w : TypedValue} {e : Felt} (first : s.encoding? typeName v = .ok e)
    (second : s'.encoding? typeName w = .ok e) (short : v.ArraysShort) (short' : w.ArraysShort) :
    EncodesAlike s typeName v w ∨
      Collision (s.HashesBelow typeName v) (s'.HashesBelow typeName w) := by
  -- The second value is not bound by the first, so only the first one is recursed on; where both
  -- runs succeed, the second has the shape that the type asks for as well.
  induction v using TypedValue.field_induction generalizing typeName w e with
  | step v ih =>
    rcases TypeName.kind_cases typeName with rfl | rfl | composite
    · rw [encoding?_felt] at first second
      exact Or.inl (.element first second)
    · rw [encoding?_feltArray] at first second
      exact arrayHash?_binding first second short short'
    · rw [encoding?_of_not_primitive composite] at first second
      obtain ⟨fields, _, rfl, _⟩ := structHash?_eq_ok_iff.mp first
      obtain ⟨fields', _, rfl, _⟩ := structHash?_eq_ok_iff.mp second
      rw [TypedValue.ArraysShort] at short short'
      apply record_binding sameTypes composite first second
      intro f v w e foundLeft foundRight left right
      exact ih fields f.name v rfl foundLeft left right (short.of_find? foundLeft)
        (short'.of_find? foundRight)

/-- The domains have the same element in every field that the domain type declares. -/
def DomainsAlike (s s' : Schema) : Prop :=
  ∃ fieldDecls, s.resolve? TypeName.domain = .ok fieldDecls ∧ ∀ f ∈ fieldDecls,
    ∃ part part' e, s.domain.part? f.name = some part ∧ s'.domain.part? f.name = some part' ∧
      (Scalar.infer part).toFelt? = .ok e ∧ (Scalar.infer part').toFelt? = .ok e

theorem domainHash?_binding {s s' : Schema} (sameTypes : s.types = s'.types)
    (accepted : s.Accepted) {h : Felt} (first : s.domainHash? = .ok h)
    (second : s'.domainHash? = .ok h) :
    DomainsAlike s s' ∨ Collision (s.HashesBelow TypeName.domain s.domain.toValue)
      (s'.HashesBelow TypeName.domain s'.domain.toValue) := by
  have composite : TypeName.isPrimitive TypeName.domain = false := by decide
  rw [domainHash?, ← encoding?_of_not_primitive composite] at first second
  rcases encoding?_binding sameTypes first second (TypedValue.arraysShort_domain _)
    (TypedValue.arraysShort_domain _) with alike | collision
  · left
    obtain ⟨fieldDecls, resolved, elements⟩ := accepted.domain_fields
    refine ⟨fieldDecls, resolved, ?_⟩
    intro f declared
    rw [Domain.toValue_eq, Domain.toValue_eq, encodesAlike_record_iff composite resolved] at alike
    obtain ⟨v, w, found, found', alike⟩ := alike f declared
    rw [Domain.find?_parts] at found found'
    obtain ⟨part, reads, rfl⟩ := Option.map_eq_some_iff.mp found
    obtain ⟨part', reads', rfl⟩ := Option.map_eq_some_iff.mp found'
    rw [(elements f declared).1, encodesAlike_felt_iff] at alike
    obtain ⟨e, left, right⟩ := alike
    exact ⟨part, part', e, reads, reads', mapError_eq_ok_iff.mp left, mapError_eq_ok_iff.mp right⟩
  · exact Or.inr collision

theorem parts_binding {s s' : Schema} {account account' h : Felt} {v v' : TypedValue}
    (first : s.messageHash? account v = .ok h) (second : s'.messageHash? account' v' = .ok h) :
    (account = account' ∧ (∃ d, s.domainHash? = .ok d ∧ s'.domainHash? = .ok d) ∧
      ∃ e, s.structHash? s.primary v = .ok e ∧ s'.structHash? s'.primary v' = .ok e) ∨
    Collision (s.HashesFor account v) (s'.HashesFor account' v') := by
  obtain ⟨marker, d, e, named, separated, hashed, run⟩ := messageHash?_eq_ok_iff.mp first
  obtain ⟨marker', d', e', named', separated', hashed', run'⟩ := messageHash?_eq_ok_iff.mp second
  have sameLength : [marker, d, account, e].length = [marker', d', account', e'].length := rfl
  rcases Pedersen.hashWithLength?_binding (fun _ => sameLength) run run' with same | collision
  · cases same
    exact Or.inl ⟨rfl, ⟨d, separated, separated'⟩, e, hashed, hashed'⟩
  · exact Or.inr ⟨_, _, .parts named separated hashed, .parts named' separated' hashed', collision⟩

theorem messageHash?_binding {s s' : Schema} {account account' h : Felt} {v v' : TypedValue}
    (accepted : s.Accepted)
    (first : s.messageHash? account v = .ok h) (second : s'.messageHash? account' v' = .ok h) :
    Collision (s.HashesFor account v) (s'.HashesFor account' v') ∨
    (account = account' ∧ (∃ d, s.domainHash? = .ok d ∧ s'.domainHash? = .ok d) ∧
      (∃ e, s.structHash? s.primary v = .ok e ∧ s'.structHash? s'.primary v' = .ok e) ∧
      (s.types = s'.types → s.primary = s'.primary → v.ArraysShort → v'.ArraysShort →
        EncodesAlike s s.primary v v' ∧ DomainsAlike s s')) := by
  rcases parts_binding first second with ⟨rfl, ⟨d, separated, separated'⟩, e, hashed, hashed'⟩ |
    collision
  · by_cases collides : Collision (s.HashesFor account v) (s'.HashesFor account v')
    · exact Or.inl collides
    · right
      refine ⟨rfl, ⟨d, separated, separated'⟩, ⟨e, hashed, hashed'⟩, ?_⟩
      intro sameTypes samePrimary short short'
      constructor
      · have composite := accepted.primary_composite
        rw [← samePrimary, ← encoding?_of_not_primitive composite] at hashed'
        rw [← encoding?_of_not_primitive composite] at hashed
        rcases encoding?_binding sameTypes hashed hashed' short short' with alike | deeper
        · exact alike
        · refine absurd (deeper.mono ?_ ?_) collides
          · intro xs below; exact .value below
          · intro ys below; exact .value (samePrimary ▸ below)
      · rcases domainHash?_binding sameTypes accepted separated separated' with alike | deeper
        · exact alike
        · refine absurd (deeper.mono ?_ ?_) collides
          · intro xs below; exact .domain below
          · intro ys below; exact .domain below
  · exact Or.inl collision

/-- A schema whose one type, primary and of the domain, has the name of the domain as its field. -/
def nameOnly (domain : Domain) : Schema :=
  ⟨[(TypeName.domain, [⟨"name", TypeName.felt⟩])], TypeName.domain, domain⟩

def nameOnlyTypeHash : Felt :=
  ⟨0x33ca3d5e336de311608b31780f9ac02120520eb2450197c0494eed92687b40, by decide⟩

def five : Felt :=
  ⟨5, by decide⟩

theorem resolve?_nameOnly (domain : Domain) :
    (nameOnly domain).resolve? TypeName.domain = .ok [⟨"name", TypeName.felt⟩] := by
  rw [resolve?, typeDef?, TypeName.canonical, if_neg (by decide)]
  rfl

theorem dependenciesText?_nameOnly (domain : Domain) :
    Dependencies.typeText? (nameOnly domain).types TypeName.domain =
      .ok "StarkNetDomain(name:felt)" :=
  Dependencies.typeText?_of_primitive (d := [⟨"name", TypeName.felt⟩]) rfl (by decide)

theorem typeHash?_nameOnly (domain : Domain) :
    (nameOnly domain).typeHash? TypeName.domain = .ok nameOnlyTypeHash := by
  have hashed : Selector.ofName "StarkNetDomain(name:felt)" = nameOnlyTypeHash := by
    decide +kernel
  rw [typeHash?, typeText?, resolve?_nameOnly, TypeName.canonical, if_neg (by decide),
    dependenciesText?_nameOnly, ← hashed]
  rfl

theorem accepted_nameOnly {domain : Domain} {e : Felt}
    (element : (Scalar.infer domain.name).toFelt? = .ok e) : (nameOnly domain).Accepted := by
  apply accepted_of_domain_fields
  intro f member
  rw [List.mem_singleton.mp member]
  exact ⟨rfl, domain.name, e, rfl, element⟩

theorem structHash?_nameOnly {domain : Domain} {fields : List (String × TypedValue)}
    {w : TypedValue} {e h : Felt} (found : Table.find? "name" fields = some w)
    (element : w.toFelt? = .ok e)
    (run : Pedersen.runWithLength? [nameOnlyTypeHash, e] = some h) :
    (nameOnly domain).structHash? TypeName.domain (.record fields) = .ok h := by
  apply structHash?_eq_ok_iff.mpr
  refine ⟨fields, _, rfl, ?_, Pedersen.hashWithLength?_of_runWithLength? run⟩
  apply elements?_eq_ok_iff.mpr
  refine ⟨_, _, [e], resolve?_nameOnly domain, typeHash?_nameOnly domain, ?_, rfl⟩
  apply mapM_cons_eq_ok_iff.mpr
  refine ⟨e, [], declaredEncoding?_eq_ok_iff.mpr ⟨w, found, ?_⟩, rfl, rfl⟩
  rw [encoding?_felt, element]

/-- Messages whose name and domain both spell five have one hash, in whatever spelling. -/
theorem exists_messageHash?_nameOnly :
    ∃ h, ∀ (domain : Domain) (fields : List (String × TypedValue)) (spelling : String),
      (Scalar.infer domain.name).toFelt? = .ok five →
      Table.find? "name" fields = some (.infer spelling) →
      (Scalar.infer spelling).toFelt? = .ok five →
      (nameOnly domain).messageHash? Felt.one (.record fields) = .ok h := by
  have runs : ((Felt.ofShortString? messagePrefix).toOption.bind fun first =>
      (Pedersen.runWithLength? [nameOnlyTypeHash, five]).bind fun e =>
        Pedersen.runWithLength? [first, e, Felt.one, e]).isSome = true := by
    decide +kernel
  obtain ⟨h, run⟩ := Option.isSome_iff_exists.mp runs
  obtain ⟨first, prefixed, run⟩ := Option.bind_eq_some_iff.mp run
  obtain ⟨e, structs, parts⟩ := Option.bind_eq_some_iff.mp run
  refine ⟨h, fun domain fields spelling named found spelled => ?_⟩
  apply messageHash?_eq_ok_iff.mpr
  refine ⟨first, e, e, eq_ok_of_toOption prefixed, ?_,
    structHash?_nameOnly found (mapError_eq_ok_iff.mpr spelled) structs,
    Pedersen.hashWithLength?_of_runWithLength? parts⟩
  rw [domainHash?, show (nameOnly domain).domain = domain from rfl, Domain.toValue_eq]
  refine structHash?_nameOnly (w := .infer domain.name) ?_ (mapError_eq_ok_iff.mpr named) structs
  rw [Domain.find?_parts]
  rfl

theorem messageHash?_binding_spellings :
    ∃ h, (nameOnly ⟨"5", "1", "1"⟩).messageHash? Felt.one (.record [("name", .infer "5")]) = .ok h ∧
      (nameOnly ⟨"0x5", "2", "2"⟩).messageHash? Felt.one
        (.record [("memo", .array []), ("name", .infer "0x05")]) = .ok h ∧
      (Collision
          ((nameOnly ⟨"5", "1", "1"⟩).HashesFor Felt.one (.record [("name", .infer "5")]))
          ((nameOnly ⟨"0x5", "2", "2"⟩).HashesFor Felt.one
            (.record [("memo", .array []), ("name", .infer "0x05")])) ∨
        (EncodesAlike (nameOnly ⟨"5", "1", "1"⟩) TypeName.domain (.record [("name", .infer "5")])
            (.record [("memo", .array []), ("name", .infer "0x05")]) ∧
          DomainsAlike (nameOnly ⟨"5", "1", "1"⟩) (nameOnly ⟨"0x5", "2", "2"⟩))) := by
  have decimal : (Scalar.infer "5").toFelt? = .ok five :=
    eq_ok_of_toOption (by decide +kernel)
  have hex : (Scalar.infer "0x5").toFelt? = .ok five :=
    eq_ok_of_toOption (by decide +kernel)
  have padded : (Scalar.infer "0x05").toFelt? = .ok five :=
    eq_ok_of_toOption (by decide +kernel)
  obtain ⟨h, hashes⟩ := exists_messageHash?_nameOnly
  have first := hashes ⟨"5", "1", "1"⟩ [("name", .infer "5")] "5" decimal rfl decimal
  have second := hashes ⟨"0x5", "2", "2"⟩ [("memo", .array []), ("name", .infer "0x05")] "0x05"
    hex rfl padded
  refine ⟨h, first, second, ?_⟩
  rcases messageHash?_binding (accepted_nameOnly decimal) first second with
    collision | ⟨_, _, _, alike⟩
  · exact Or.inl collision
  · right
    apply alike rfl rfl
    · simp [TypedValue.ArraysShort, TypedValue.ArraysShortIn, TypedValue.infer]
    · simp [TypedValue.ArraysShort, TypedValue.ArraysShortIn, TypedValue.infer]

end Schema
end StarkSigning

import StarkSigning.Proofs.TypedData.Conformance

/-!
# StarkSigning.Proofs.TypedData.Separation

An accepted schema can hash its domain. Acceptance checks that every field of the domain type reads
a part of the domain that stands for an element. The hash reads the parts later and on another way,
as fields of the record of all three, and finds the same elements, whatever fields the domain type
has, in whatever order and however often. So what is left to fail is the two-to-one hash, and of a
message the hash of its value.

* `SeparatorElements`: the list that the hash of the domain hashes.
* `Accepted.exists_separatorElements`: it exists, and its hash is that of the domain.
* `MessageOutcome`: what becomes of a message: a collision, a refused value, or a hash.
* `domainHash?_only_collides`: the hashes of the domain and of messages, for accepted schemas.
-/

namespace StarkSigning

/-- Some pair that the hash of the list hashes collides on the way. -/
def Pedersen.Collides (elements : List Felt) : Prop :=
  ∃ p ∈ hashedPairs elements, hash? [p.1, p.2] = .error (.point .pedersenCollision)

namespace Schema

open Outcome

/-- The hash of the domain type, followed for each field that it declares, in declared order, by
the element that the part of the domain with this name stands for. -/
def SeparatorElements (s : Schema) (elements : List Felt) : Prop :=
  ∃ fieldDecls typeHash, ∃ encode : FieldDecl → Felt,
    s.typeDef? TypeName.domain = some fieldDecls ∧ s.typeHash? TypeName.domain = .ok typeHash ∧
    (∀ f ∈ fieldDecls, ∃ text, s.domain.Supplies f.name text ∧
      (TypedValue.infer text).toFelt? = .ok (encode f)) ∧
    elements = typeHash :: fieldDecls.map encode

variable {s : Schema}

theorem SeparatorElements.unique {elements elements' : List Felt}
    (first : s.SeparatorElements elements) (second : s.SeparatorElements elements') :
    elements = elements' := by
  obtain ⟨fieldDecls, typeHash, encode, declared, typed, each, rfl⟩ := first
  obtain ⟨_, _, encode', declared', typed', each', rfl⟩ := second
  cases declared.symm.trans declared'
  cases typed.symm.trans typed'
  rw [List.map_congr_left]
  intro f member
  obtain ⟨text, reads, encoded⟩ := each f member
  obtain ⟨text', reads', encoded'⟩ := each' f member
  rw [← Domain.part?_eq_some_iff] at reads reads'
  cases reads.symm.trans reads'
  exact Except.ok.inj (encoded.symm.trans encoded')

/-- A field of the domain type finds its part in the record of the parts. -/
theorem declaredEncoding?_domain {f : FieldDecl} {text : String} {e : Felt}
    (element : f.typeName = TypeName.felt) (reads : s.domain.part? f.name = some text)
    (encoded : (TypedValue.infer text).toFelt? = .ok e) (typeName : String) :
    s.declaredEncoding? typeName [("chainId", .infer s.domain.chainId),
      ("name", .infer s.domain.name), ("version", .infer s.domain.version)] f = .ok e := by
  apply declaredEncoding?_eq_ok_iff.mpr
  refine ⟨.infer text, ?_, ?_⟩
  · rw [Domain.find?_parts, reads]
    rfl
  · rw [element, encoding?_felt, encoded]

theorem Accepted.exists_separatorElements (accepted : s.Accepted) :
    ∃ elements, s.SeparatorElements elements ∧
      s.domainHash? = Pedersen.hashWithLength? elements := by
  obtain ⟨fieldDecls, resolved, checked⟩ := accepted.domain_fields
  have declared := resolve?_eq_ok_iff.mp resolved
  obtain ⟨typeHash, typed⟩ := accepted.exists_typeHash?_eq_ok declared
  have each : ∀ f ∈ fieldDecls, ∃ e text, s.domain.part? f.name = some text ∧
      (TypedValue.infer text).toFelt? = .ok e := by
    intro f member
    obtain ⟨-, text, e, reads, encoded⟩ := checked f member
    exact ⟨e, text, reads, mapError_eq_ok_iff.mpr encoded⟩
  choose! encode parts using each
  refine ⟨typeHash :: fieldDecls.map encode,
    ⟨fieldDecls, typeHash, encode, declared, typed, ?_, rfl⟩, ?_⟩
  · intro f member
    obtain ⟨text, reads, encoded⟩ := parts f member
    exact ⟨text, Domain.part?_eq_some_iff.mp reads, encoded⟩
  · have encodings : ∀ f ∈ fieldDecls, s.declaredEncoding? TypeName.domain
        [("chainId", .infer s.domain.chainId), ("name", .infer s.domain.name),
          ("version", .infer s.domain.version)] f = .ok (encode f) := by
      intro f member
      obtain ⟨text, reads, encoded⟩ := parts f member
      exact declaredEncoding?_domain (checked f member).1 reads encoded _
    rw [domainHash?, Domain.toValue_eq, structHash?_of_declared declared typed,
      mapM_eq_ok_map encodings, ok_bind]

/-! ## Messages -/

theorem exists_messagePrefix : ∃ first, Felt.ofShortString? messagePrefix = .ok first := by
  have short : (Felt.ofShortString? messagePrefix).toOption.isSome = true := by decide +kernel
  obtain ⟨first, found⟩ := Option.isSome_iff_exists.mp short
  exact ⟨first, eq_ok_of_toOption found⟩

theorem Accepted.primary_declared (accepted : s.Accepted) :
    ∃ fieldDecls, s.typeDef? s.primary = some fieldDecls := by
  obtain ⟨declared, primary, domain, run⟩ := accepted
  obtain ⟨_, named, _, found, _⟩ := ofTypes?_eq_ok_iff.mp run
  have canonical : TypeName.canonical s.primary = s.primary := by
    rw [named, TypeName.canonical_canonical]
  rw [typeDef?, canonical]
  exact Option.isSome_iff_exists.mp found

/-- Where a value of the primary type is refused, it is not for an undeclared type, at any depth. -/
theorem Accepted.primary_refusal (accepted : s.Accepted) {v : TypedValue} {e : Error}
    (refused : s.structHash? s.primary v = .error e) : e.isUndeclared = false := by
  have known : s.Known s.primary := fun _ => accepted.primary_declared
  rw [← encoding?_of_not_primitive accepted.primary_composite] at refused
  rcases encoding?_eq_error accepted known refused with ⟨rfl, -⟩ | ⟨-, other⟩
  · rfl
  · exact other

/-- What becomes of a message whose domain hashes this list behind this prefix. -/
inductive MessageOutcome (s : Schema) (elements : List Felt) (first account : Felt)
    (v : TypedValue) : Except Error Felt → Prop
  | domain (pair : Pedersen.Collides elements) :
      MessageOutcome s elements first account v (.error (.point .pedersenCollision))
  | value {e : Error} (refused : s.structHash? s.primary v = .error e)
      (declared : e.isUndeclared = false) : MessageOutcome s elements first account v (.error e)
  | parts {d h : Felt} (separated : s.domainHash? = .ok d)
      (hashed : s.structHash? s.primary v = .ok h) (pair : Pedersen.Collides [first, d, account, h]) :
      MessageOutcome s elements first account v (.error (.point .pedersenCollision))
  | hash {d h m : Felt} (separated : s.domainHash? = .ok d)
      (hashed : s.structHash? s.primary v = .ok h)
      (run : Pedersen.hashWithLength? [first, d, account, h] = .ok m) :
      MessageOutcome s elements first account v (.ok m)

theorem Accepted.messageHash?_outcome (accepted : s.Accepted) {elements : List Felt} {first : Felt}
    (separator : s.domainHash? = Pedersen.hashWithLength? elements)
    (marked : Felt.ofShortString? messagePrefix = .ok first) (account : Felt) (v : TypedValue) :
    s.MessageOutcome elements first account v (s.messageHash? account v) := by
  rw [messageHash?, marked, mapError_ok, ok_bind]
  rcases Pedersen.hashWithLength?_outcome elements with ⟨collides, pair⟩ | ⟨d, separated⟩
  · rw [separator, collides, error_bind]
    exact .domain pair
  · rw [← separator] at separated
    rw [separated, ok_bind]
    cases value : s.structHash? s.primary v with
    | error e =>
      rw [error_bind]
      exact .value value (accepted.primary_refusal value)
    | ok h =>
      rw [ok_bind]
      rcases Pedersen.hashWithLength?_outcome [first, d, account, h] with
        ⟨collides, pair⟩ | ⟨m, run⟩
      · rw [collides]
        exact .parts separated value pair
      · rw [run]
        exact .hash separated value run

/-- An accepted schema hashes its domain as the list of the hash of the domain type and the elements
of the declared parts, and fails in this at a collision only. A message fails with its value, or at
a collision of the list for the domain or of the four elements that it hashes: its domain, its
prefix and the name of its primary type are no reason. -/
theorem domainHash?_only_collides (accepted : s.Accepted) :
    ∃ elements, s.SeparatorElements elements ∧
      s.domainHash? = Pedersen.hashWithLength? elements ∧
      ((s.domainHash? = .error (.point .pedersenCollision) ∧ Pedersen.Collides elements) ∨
        ∃ d, s.domainHash? = .ok d) ∧
      ∃ first, Felt.ofShortString? messagePrefix = .ok first ∧ ∀ account v,
        s.MessageOutcome elements first account v (s.messageHash? account v) := by
  obtain ⟨elements, listed, separator⟩ := accepted.exists_separatorElements
  obtain ⟨first, marked⟩ := exists_messagePrefix
  refine ⟨elements, listed, separator, ?_, first, marked, ?_⟩
  · rw [separator]
    exact Pedersen.hashWithLength?_outcome elements
  · exact accepted.messageHash?_outcome separator marked

/-- A domain type that reads the chain twice and the version not at all. -/
def chainTwiceFields : TypeDef :=
  [⟨"chainId", TypeName.felt⟩, ⟨"name", TypeName.felt⟩, ⟨"chainId", TypeName.felt⟩]

def chainTwice : Schema :=
  ⟨[(TypeName.domain, chainTwiceFields)], TypeName.domain,
    ⟨"5", "a version that no field of the domain type reads", "1"⟩⟩

theorem accepted_chainTwice : chainTwice.Accepted := by
  have name : (Scalar.infer "5").toFelt? = .ok five := eq_ok_of_toOption (by decide +kernel)
  have chain : (Scalar.infer "1").toFelt? = .ok Felt.one := eq_ok_of_toOption (by decide +kernel)
  apply accepted_of_domain_fields
  intro f member
  simp only [chainTwiceFields, List.mem_cons, List.not_mem_nil, or_false] at member
  rcases member with rfl | rfl | rfl
  · exact ⟨rfl, "1", Felt.one, rfl, chain⟩
  · exact ⟨rfl, "5", five, rfl, name⟩
  · exact ⟨rfl, "1", Felt.one, rfl, chain⟩

/-- The elements for the chain stand around that for the name, and the version has none. -/
theorem domainHash?_only_collides_chainTwice :
    chainTwice.Accepted ∧ ∃ typeHash, chainTwice.typeHash? TypeName.domain = .ok typeHash ∧
      chainTwice.domainHash? =
        Pedersen.hashWithLength? [typeHash, Felt.one, five, Felt.one] := by
  obtain ⟨_, listed, hashed, -⟩ := domainHash?_only_collides accepted_chainTwice
  have declared : chainTwice.typeDef? TypeName.domain = some chainTwiceFields := by decide
  obtain ⟨typeHash, typed⟩ := accepted_chainTwice.exists_typeHash?_eq_ok declared
  have name : (TypedValue.infer "5").toFelt? = .ok five := eq_ok_of_toOption (by decide +kernel)
  have chain : (TypedValue.infer "1").toFelt? = .ok Felt.one :=
    eq_ok_of_toOption (by decide +kernel)
  let encode (f : FieldDecl) : Felt := if f.name = "name" then five else Felt.one
  have separator : chainTwice.SeparatorElements [typeHash, Felt.one, five, Felt.one] := by
    refine ⟨chainTwiceFields, typeHash, encode, declared, typed, ?_, rfl⟩
    intro f member
    simp only [chainTwiceFields, List.mem_cons, List.not_mem_nil, or_false] at member
    rcases member with rfl | rfl | rfl
    · exact ⟨"1", Or.inr (Or.inr ⟨rfl, rfl⟩), chain⟩
    · exact ⟨"5", Or.inl ⟨rfl, rfl⟩, name⟩
    · exact ⟨"1", Or.inr (Or.inr ⟨rfl, rfl⟩), chain⟩
  rw [listed.unique separator] at hashed
  exact ⟨accepted_chainTwice, typeHash, typed, hashed⟩

end Schema
end StarkSigning

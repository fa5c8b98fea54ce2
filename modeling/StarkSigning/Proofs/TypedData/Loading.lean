import StarkSigning.Proofs.Json.Integers
import StarkSigning.Proofs.Outcome
import StarkSigning.TypedData.Document

/-!
# StarkSigning.Proofs.TypedData.Loading

Which texts write a document, and why the others are refused. What a JSON value writes is said here
by relations, one for each kind of record, without the order in which members are visited. A
document without a well-written domain is refused as a fault of the schema, whatever else is wrong
with it; with such a domain, anything else that is missing or ill written is a fault of the text.

* `Json.WritesDomain`, `Json.WritesTypes`, `Json.WritesDocument`: what JSON values write.
* `Domain.ofJson?_eq_ok_iff`, `TypeDef.tableOfJson?_eq_ok_iff`: the decoders read what is written.
* `Document.load?_eq_ok_iff`: so does the reader of documents, which decodes the domain twice.
* `Document.ofText?_judges_domain_first`: the outcomes for every text.
-/

namespace StarkSigning

/-! ## What JSON values write -/

namespace Json

/-- The value is an object with a member under the key, and that member is so. -/
def HasMember (j : Json) (key : String) (holds : Json → Prop) : Prop :=
  ∃ part, j.member? key = some part ∧ holds part

/-- A part of a domain is a string, or an integer that stands for its decimal numeral. -/
inductive WritesPart : Json → String → Prop
  | string (s : String) : WritesPart (.string s) s
  | integer {x : Number} {n : Nat} : x.IsUnsigned n → WritesPart (.number x) (Nat.repr n)

/-- A domain is an object with its three parts, or the array of them. -/
inductive WritesDomain : Json → Domain → Prop
  | object {members : List (String × Json)} {d : Domain} :
      HasMember (.object members) "name" (WritesPart · d.name) →
      HasMember (.object members) "version" (WritesPart · d.version) →
      HasMember (.object members) "chainId" (WritesPart · d.chainId) →
      WritesDomain (.object members) d
  | array {name version chainId : Json} {d : Domain} :
      WritesPart name d.name → WritesPart version d.version → WritesPart chainId d.chainId →
      WritesDomain (.array [name, version, chainId]) d

/-- A field is an object with its name and the name of its type, or the array of the two. -/
inductive WritesField : Json → FieldDecl → Prop
  | object {members : List (String × Json)} {f : FieldDecl} :
      member? "name" (.object members) = some (.string f.name) →
      member? "type" (.object members) = some (.string f.typeName) →
      WritesField (.object members) f
  | array (f : FieldDecl) : WritesField (.array [.string f.name, .string f.typeName]) f

/-- A type is the array of its fields. -/
inductive WritesType : Json → TypeDef → Prop
  | array {items : List Json} {d : TypeDef} :
      List.Forall₂ WritesField items d → WritesType (.array items) d

/-- Declarations are an object with one type under each name. -/
inductive WritesTypes : Json → List (String × TypeDef) → Prop
  | object {members : List (String × Json)} {declared : List (String × TypeDef)} :
      List.Forall₂ (fun member declaration => declaration.1 = member.1 ∧
        WritesType member.2 declaration.2) members declared →
      WritesTypes (.object members) declared

/-- A document is an object whose members write its parts; the message may be any value. -/
structure WritesDocument (j : Json) (d : Document) : Prop where
  domain : j.HasMember "domain" (WritesDomain · d.domain)
  types : j.HasMember "types" (WritesTypes · d.types)
  primary : j.HasMember "primaryType" (· = .string d.primary)
  message : j.member? "message" = some d.message

/-- The value is no object, has no domain, or has one that writes none. -/
def LacksDomain (j : Json) : Prop :=
  (∀ members, j ≠ .object members) ∨ j.member? "domain" = none ∨
    j.HasMember "domain" fun part => ∀ d, ¬ part.WritesDomain d

/-- Some other part of a document is missing, or does not write what it should. -/
def LacksContent (j : Json) : Prop :=
  j.member? "types" = none ∨ j.member? "primaryType" = none ∨ j.member? "message" = none ∨
    (j.HasMember "types" fun part => ∀ declared, ¬ part.WritesTypes declared) ∨
    j.HasMember "primaryType" fun part => ∀ name, part ≠ .string name

/-- A member that writes nothing is either missing or ill written. -/
theorem not_exists_hasMember_iff {α : Type} {writes : Json → α → Prop} {j : Json} {key : String} :
    (¬ ∃ a, j.HasMember key (writes · a)) ↔
      j.member? key = none ∨ j.HasMember key fun part => ∀ a, ¬ writes part a := by
  unfold HasMember
  cases j.member? key with
  | none => simp
  | some part => simp

theorem lacksDomain_iff {j : Json} :
    j.LacksDomain ↔ ¬ ∃ d, j.HasMember "domain" (WritesDomain · d) := by
  rw [LacksDomain, not_exists_hasMember_iff]
  constructor
  · rintro (other | lacks)
    · cases j with
      | object members => exact absurd rfl (other members)
      | null | bool b | number x | string s | array items => exact Or.inl rfl
    · exact lacks
  · exact Or.inr

/-- Beside the domain, the members with something to be lacking are three. -/
theorem lacksContent_iff {j : Json} {d : Domain}
    (domain : j.HasMember "domain" (WritesDomain · d)) :
    j.LacksContent ↔ ¬ ∃ document, j.WritesDocument document := by
  have split : (∃ document, j.WritesDocument document) ↔
      (∃ declared, j.HasMember "types" (WritesTypes · declared)) ∧
        (∃ name, j.HasMember "primaryType" (· = .string name)) ∧ j.member? "message" ≠ none := by
    constructor
    · rintro ⟨document, -, types, primary, message⟩
      exact ⟨⟨_, types⟩, ⟨_, primary⟩, by rw [message]; exact Option.some_ne_none _⟩
    · rintro ⟨⟨declared, types⟩, ⟨name, primary⟩, present⟩
      obtain ⟨message, found⟩ := Option.ne_none_iff_exists'.mp present
      exact ⟨⟨declared, name, d, message⟩, domain, types, primary, found⟩
  rw [split, not_and_or, not_and_or, not_exists_hasMember_iff, not_exists_hasMember_iff, not_not,
    LacksContent]
  tauto

end Json

/-! ## Decoders -/

namespace Json.Decode

open Outcome

theorem text_eq_ok_iff {j : Json} {s : String} : text j = .ok s ↔ j = .string s := by
  cases j <;> simp [text]

theorem textOrNumber_eq_ok_iff {j : Json} {s : String} :
    textOrNumber j = .ok s ↔ j.WritesPart s := by
  constructor
  · intro read
    cases j with
    | string text =>
      cases read
      exact .string s
    | number x =>
      cases x with
      | natural u =>
        cases read
        exact .integer (Number.isUnsigned_iff.mpr ⟨u, rfl, rfl⟩)
      | negative i | real f => cases read
    | null | bool b | array items | object members => cases read
  · intro writes
    cases writes with
    | string => rfl
    | integer unsigned =>
      obtain ⟨u, rfl, rfl⟩ := Number.isUnsigned_iff.mp unsigned
      rfl

variable {α : Type} {decode : Json → Except DecodeError α} {key : String} {a : α}

theorem member_eq_some_iff {members : List (String × Json)} :
    member decode key members = .ok (some a) ↔
      HasMember (.object members) key (decode · = .ok a) := by
  rw [member, HasMember, member?]
  cases Table.find? key members with
  | none => simp
  | some part => simp [map_eq_ok_iff]

theorem required_eq_ok_iff {found : Option α} : required key found = .ok a ↔ found = some a := by
  cases found <;> simp [required]

theorem item_eq_ok_iff {record : String} {count index : Nat} {items : List Json} :
    item decode record count index items = .ok a ↔
      ∃ part, items[index]? = some part ∧ decode part = .ok a := by
  rw [item]
  cases items[index]? <;> simp

theorem noMore_eq_ok_iff {count : Nat} {items : List Json} {u : Unit} :
    noMore count items = .ok u ↔ items.length ≤ count := by
  rw [noMore]
  split <;> simp <;> omega

end Json.Decode

section Records

open Outcome Json Json.Decode

theorem Domain.ofJson?_eq_ok_iff {j : Json} {d : Domain} :
    ofJson? j = .ok d ↔ j.WritesDomain d := by
  constructor
  · intro read
    cases j with
    | object members =>
      -- Members are visited by their keys and asked for as declared; success needs them all.
      simp only [ofJson?, bind_eq_ok_iff, required_eq_ok_iff] at read
      obtain ⟨_, chainId, _, name, _, version, _, rfl, _, rfl, _, rfl, result⟩ := read
      cases result
      simp only [member_eq_some_iff, textOrNumber_eq_ok_iff] at name version chainId
      exact .object name version chainId
    | array items =>
      simp only [ofJson?, bind_eq_ok_iff, item_eq_ok_iff, noMore_eq_ok_iff,
        textOrNumber_eq_ok_iff] at read
      obtain ⟨_, ⟨a, first, name⟩, _, ⟨b, second, version⟩, _, ⟨c, third, chainId⟩, _, short,
        result⟩ := read
      cases result
      obtain ⟨long, -⟩ := List.getElem?_eq_some_iff.mp third
      obtain ⟨x, y, z, rfl⟩ := List.length_eq_three.mp (show items.length = 3 by omega)
      cases first
      cases second
      cases third
      exact .array name version chainId
    | null | bool b | number x | string s => cases read
  · intro writes
    cases writes with
    | object name version chainId =>
      simp only [← textOrNumber_eq_ok_iff, ← member_eq_some_iff] at name version chainId
      simp only [ofJson?, bind_eq_ok_iff, required_eq_ok_iff]
      exact ⟨_, chainId, _, name, _, version, _, rfl, _, rfl, _, rfl, rfl⟩
    | array name version chainId =>
      rw [← textOrNumber_eq_ok_iff] at name version chainId
      simp only [ofJson?, bind_eq_ok_iff, item_eq_ok_iff, noMore_eq_ok_iff]
      exact ⟨_, ⟨_, rfl, name⟩, _, ⟨_, rfl, version⟩, _, ⟨_, rfl, chainId⟩, (), Nat.le_refl 3, rfl⟩

theorem FieldDecl.ofJson?_eq_ok_iff {j : Json} {f : FieldDecl} :
    ofJson? j = .ok f ↔ j.WritesField f := by
  constructor
  · intro read
    cases j with
    | object members =>
      simp only [ofJson?, bind_eq_ok_iff, required_eq_ok_iff] at read
      obtain ⟨_, name, _, typeName, _, rfl, _, rfl, result⟩ := read
      cases result
      simp only [member_eq_some_iff, text_eq_ok_iff] at name typeName
      obtain ⟨_, name, rfl⟩ := name
      obtain ⟨_, typeName, rfl⟩ := typeName
      exact .object name typeName
    | array items =>
      simp only [ofJson?, bind_eq_ok_iff, item_eq_ok_iff, noMore_eq_ok_iff, text_eq_ok_iff] at read
      obtain ⟨name, ⟨_, first, rfl⟩, typeName, ⟨_, second, rfl⟩, _, short, result⟩ := read
      cases result
      obtain ⟨long, -⟩ := List.getElem?_eq_some_iff.mp second
      obtain ⟨x, y, rfl⟩ := List.length_eq_two.mp (show items.length = 2 by omega)
      cases first
      cases second
      exact .array ⟨name, typeName⟩
    | null | bool b | number x | string s => cases read
  · intro writes
    cases writes with
    | object name typeName =>
      have named := member_eq_some_iff.mpr ⟨_, name, text_eq_ok_iff.mpr rfl⟩
      have typed := member_eq_some_iff.mpr ⟨_, typeName, text_eq_ok_iff.mpr rfl⟩
      simp only [ofJson?, bind_eq_ok_iff, required_eq_ok_iff]
      exact ⟨_, named, _, typed, _, rfl, _, rfl, rfl⟩
    | array => rfl

theorem TypeDef.ofItems?_eq_mapM (items : List Json) :
    ofItems? items = items.mapM FieldDecl.ofJson? := by
  apply eq_mapM
  case nil => rfl
  case cons =>
    intro j rest
    rw [ofItems?]
    cases FieldDecl.ofJson? j with
    | error e => rfl
    | ok f => rfl

theorem TypeDef.ofJson?_eq_ok_iff {j : Json} {d : TypeDef} :
    ofJson? j = .ok d ↔ j.WritesType d := by
  constructor
  · intro read
    cases j with
    | array items =>
      simp only [ofJson?, ofItems?_eq_mapM, mapM_eq_ok_iff_forall₂, FieldDecl.ofJson?_eq_ok_iff]
        at read
      exact .array read
    | null | bool b | number x | string s | object members => cases read
  · intro writes
    cases writes with
    | array fields =>
      simp only [ofJson?, ofItems?_eq_mapM, mapM_eq_ok_iff_forall₂, FieldDecl.ofJson?_eq_ok_iff]
      exact fields

theorem TypeDef.ofMembers?_eq_mapM (members : List (String × Json)) :
    ofMembers? members = members.mapM (underKey ofJson?) := by
  apply eq_mapM_underKey
  case nil => rfl
  case cons =>
    intro name j rest
    rw [ofMembers?]
    cases ofJson? j with
    | error e => rfl
    | ok d => rfl

theorem TypeDef.tableOfJson?_eq_ok_iff {j : Json} {declared : List (String × TypeDef)} :
    tableOfJson? j = .ok declared ↔ j.WritesTypes declared := by
  constructor
  · intro read
    cases j with
    | object members =>
      simp only [tableOfJson?, ofMembers?_eq_mapM, mapM_eq_ok_iff_forall₂, underKey_eq_ok_iff,
        ofJson?_eq_ok_iff] at read
      exact .object read
    | null | bool b | number x | string s | array items => cases read
  · intro writes
    cases writes with
    | object types =>
      simp only [tableOfJson?, ofMembers?_eq_mapM, mapM_eq_ok_iff_forall₂, underKey_eq_ok_iff,
        ofJson?_eq_ok_iff]
      exact types

theorem Document.ofJson?_object_eq_ok_iff {members : List (String × Json)} {d : Document} :
    ofJson? (.object members) = .ok d ↔ WritesDocument (.object members) d := by
  constructor
  · intro read
    simp only [ofJson?, bind_eq_ok_iff, required_eq_ok_iff] at read
    obtain ⟨_, domain, _, message, _, primary, _, types, _, rfl, _, rfl, _, rfl, _, rfl, result⟩ :=
      read
    cases result
    simp only [member_eq_some_iff, text_eq_ok_iff, TypeDef.tableOfJson?_eq_ok_iff,
      Domain.ofJson?_eq_ok_iff] at domain message primary types
    obtain ⟨_, message, same⟩ := message
    cases same
    exact ⟨domain, types, primary, message⟩
  · rintro ⟨domain, types, primary, message⟩
    simp only [← Domain.ofJson?_eq_ok_iff, ← TypeDef.tableOfJson?_eq_ok_iff, ← text_eq_ok_iff,
      ← member_eq_some_iff] at domain types primary
    have kept := member_eq_some_iff.mpr ⟨_, message, rfl⟩
    simp only [ofJson?, bind_eq_ok_iff, required_eq_ok_iff]
    exact ⟨_, domain, _, kept, _, primary, _, types, _, rfl, _, rfl, _, rfl, _, rfl, rfl⟩

end Records

/-! ## Documents -/

namespace Document

open Outcome Json

variable {j : Json}

theorem exists_object_of_member? {key : String} {part : Json} (found : j.member? key = some part) :
    ∃ members, j = .object members := by
  cases j with
  | object members => exact ⟨members, rfl⟩
  | null | bool b | number x | string s | array items => cases found

/-- The domain that is decoded first is the one in the document. -/
theorem load?_of_domain {d : Domain} (domain : j.HasMember "domain" (WritesDomain · d)) :
    load? j = (ofJson? j).mapError fun cause => .document (.undecodable cause) := by
  obtain ⟨part, found, writes⟩ := domain
  simp only [load?, found, Domain.ofJson?_eq_ok_iff.mpr writes]

theorem load?_eq_ok_iff_of_domain {d : Domain} (domain : j.HasMember "domain" (WritesDomain · d))
    {document : Document} : load? j = .ok document ↔ j.WritesDocument document := by
  rw [load?_of_domain domain, mapError_eq_ok_iff]
  obtain ⟨part, found, -⟩ := domain
  obtain ⟨members, rfl⟩ := exists_object_of_member? found
  exact ofJson?_object_eq_ok_iff

/-- Without a domain the rest of the document is not looked at. -/
theorem load?_of_lacksDomain (lacks : j.LacksDomain) :
    ∃ e, load? j = .error e ∧ e.kind = .typeResolution := by
  rw [lacksDomain_iff, not_exists_hasMember_iff] at lacks
  rcases lacks with missing | ⟨part, found, writesNone⟩
  · exact ⟨.schema .domainMissing, by rw [load?, missing], rfl⟩
  · cases decoded : Domain.ofJson? part with
    | ok d => exact absurd (Domain.ofJson?_eq_ok_iff.mp decoded) (writesNone d)
    | error cause =>
      exact ⟨.schema (.malformedDomain cause), by simp only [load?, found, decoded], rfl⟩

theorem load?_eq_ok_iff {document : Document} :
    load? j = .ok document ↔ j.WritesDocument document := by
  by_cases lacks : j.LacksDomain
  · obtain ⟨e, refused, -⟩ := load?_of_lacksDomain lacks
    rw [refused]
    refine iff_of_false (by intro h; cases h) fun writes => ?_
    exact lacksDomain_iff.mp lacks ⟨_, writes.domain⟩
  · rw [lacksDomain_iff, not_not] at lacks
    obtain ⟨d, domain⟩ := lacks
    exact load?_eq_ok_iff_of_domain domain

/-- The three outcomes, each with what the value lacks. -/
theorem load?_outcome (j : Json) :
    (j.LacksDomain ∧ ∃ e, load? j = .error e ∧ e.kind = .typeResolution) ∨
      (¬ j.LacksDomain ∧ j.LacksContent ∧ ∃ e, load? j = .error e ∧ e.kind = .invalidEncoding) ∨
      ¬ j.LacksDomain ∧ ¬ j.LacksContent ∧ ∃ document, load? j = .ok document := by
  by_cases lacks : j.LacksDomain
  · exact Or.inl ⟨lacks, load?_of_lacksDomain lacks⟩
  · obtain ⟨d, domain⟩ := not_not.mp (lacksDomain_iff.not.mp lacks)
    have content := lacksContent_iff domain
    simp only [← load?_eq_ok_iff] at content
    have loaded := load?_of_domain domain
    cases decoded : ofJson? j with
    | ok document =>
      rw [decoded, mapError_ok] at loaded
      refine Or.inr (Or.inr ⟨lacks, fun incomplete => ?_, document, loaded⟩)
      exact content.mp incomplete ⟨document, loaded⟩
    | error cause =>
      rw [decoded, mapError_error] at loaded
      refine Or.inr (Or.inl ⟨lacks, content.mpr ?_, _, loaded, rfl⟩)
      simp [loaded]

/-- What comes of a text. One that is not JSON is refused as ill encoded. A JSON value without a
well-written domain is refused by type resolution, whatever else is wrong with it, and no other
value is. With such a domain, a value that lacks some other part is refused as ill encoded, and any
other is read, with the very parts that it writes. -/
theorem ofText?_judges_domain_first (text : String) :
    (Json.read? text = none → ∃ e, ofText? text = .error e ∧ e.kind = .invalidEncoding) ∧
    ∀ j, Json.read? text = some j →
      ((∃ e, ofText? text = .error e ∧ e.kind = .typeResolution) ↔ j.LacksDomain) ∧
      (¬ j.LacksDomain →
        ((∃ e, ofText? text = .error e ∧ e.kind = .invalidEncoding) ↔ j.LacksContent)) ∧
      (¬ j.LacksDomain → ¬ j.LacksContent →
        ∃ document, ofText? text = .ok document ∧ j.WritesDocument document) ∧
      ∀ document, ofText? text = .ok document ↔ j.WritesDocument document := by
  constructor
  · intro none
    exact ⟨.document .notJson, by rw [ofText?, none], rfl⟩
  intro j read
  have loaded : ofText? text = load? j := by rw [ofText?, read]
  rw [loaded]
  have reads : ∀ document, load? j = .ok document ↔ j.WritesDocument document :=
    fun _ => load?_eq_ok_iff
  rcases load?_outcome j with ⟨lacks, refused⟩ | ⟨has, lacks, e, refused, kind⟩ |
    ⟨has, complete, document, loads⟩
  · exact ⟨iff_of_true refused lacks, fun has => absurd lacks has, fun has => absurd lacks has,
      reads⟩
  · have other : ¬ ∃ e, load? j = .error e ∧ e.kind = .typeResolution := by simp [refused, kind]
    exact ⟨iff_of_false other has, fun _ => iff_of_true ⟨e, refused, kind⟩ lacks,
      fun _ complete => absurd lacks complete, reads⟩
  · have accepted (kind : ErrorKind) : ¬ ∃ e, load? j = .error e ∧ e.kind = kind := by
      simp [loads]
    exact ⟨iff_of_false (accepted _) has, fun _ => iff_of_false (accepted _) complete,
      fun _ _ => ⟨document, loads, (reads document).mp loads⟩, reads⟩

/-- The text of a document with these parts and a null for the message. -/
def textOfParts (domain types : String) : String :=
  "\x7b\"domain\":" ++ domain ++ ",\"message\":null,\"primaryType\":\"T\",\"types\":" ++ types ++
    "\x7d"

def ofParts (domain types : Json) : Json :=
  .object [("domain", domain), ("message", .null), ("primaryType", .string "T"), ("types", types)]

/-- Two documents with a number for the declarations, one of them with a domain whose version is a
list; a document with a domain in array form that declares nothing; and a text that breaks off. -/
theorem ofText?_judges_domain_first_two_faults :
    (∃ e, ofText? (textOfParts "\x7b\"version\":[1]\x7d" "1") = .error e ∧
      e.kind = .typeResolution) ∧
    (∃ e, ofText? (textOfParts "[\"a\",2,\"1\"]" "1") = .error e ∧ e.kind = .invalidEncoding) ∧
    (∃ d, ofText? (textOfParts "[\"a\",2,\"1\"]" "\x7b\x7d") = .ok d ∧
      d.domain = ⟨"a", "2", "1"⟩) ∧
    ∃ e, ofText? (textOfParts "[" "1") = .error e ∧ e.kind = .invalidEncoding := by
  let listed : Json := .object [("version", .array [.number (.natural 1)])]
  let written : Json := .array [.string "a", .number (.natural 2), .string "1"]
  let one : Json := .number (.natural 1)
  have bad : Json.read? (textOfParts "\x7b\"version\":[1]\x7d" "1") = some (ofParts listed one) :=
    rfl
  have good : Json.read? (textOfParts "[\"a\",2,\"1\"]" "1") = some (ofParts written one) := rfl
  have fine : Json.read? (textOfParts "[\"a\",2,\"1\"]" "\x7b\x7d") =
    some (ofParts written (.object [])) := rfl
  let booth : Domain := ⟨"a", "2", "1"⟩
  have has (types : Json) : (ofParts written types).HasMember "domain" (WritesDomain · booth) :=
    ⟨written, rfl, Domain.ofJson?_eq_ok_iff.mp rfl⟩
  have kept (types : Json) : ¬ (ofParts written types).LacksDomain :=
    fun lacks => lacksDomain_iff.mp lacks ⟨_, has types⟩
  have lacks : (ofParts listed one).LacksDomain := by
    refine Or.inr (Or.inr ⟨listed, rfl, fun d writes => ?_⟩)
    cases Domain.ofJson?_eq_ok_iff.mpr writes
  have undeclared : (ofParts written one).LacksContent := by
    refine Or.inr (Or.inr (Or.inr (Or.inl ⟨one, rfl, fun declared writes => ?_⟩)))
    cases TypeDef.tableOfJson?_eq_ok_iff.mpr writes
  have whole : (ofParts written (.object [])).WritesDocument ⟨[], "T", booth, .null⟩ :=
    ⟨has _, ⟨_, rfl, .object .nil⟩, ⟨_, rfl, rfl⟩, rfl⟩
  have complete : ¬ (ofParts written (.object [])).LacksContent :=
    fun lacks => (lacksContent_iff (has _)).mp lacks ⟨_, whole⟩
  obtain ⟨broken, -⟩ := ofText?_judges_domain_first (textOfParts "[" "1")
  obtain ⟨resolution, -⟩ := (ofText?_judges_domain_first _).2 _ bad
  obtain ⟨-, encoding, -⟩ := (ofText?_judges_domain_first _).2 _ good
  obtain ⟨-, -, reads, answers⟩ := (ofText?_judges_domain_first _).2 _ fine
  obtain ⟨document, loads, -⟩ := reads (kept _) complete
  cases loads.symm.trans ((answers _).mpr whole)
  exact ⟨resolution.mpr lacks, (encoding (kept _)).mpr undeclared, ⟨_, loads, rfl⟩, broken rfl⟩

end Document
end StarkSigning

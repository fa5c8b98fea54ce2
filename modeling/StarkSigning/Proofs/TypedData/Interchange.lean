import Mathlib.Data.List.Forall2
import StarkSigning.Proofs.TypedData.Inference
import StarkSigning.TypedData.Document

/-!
# StarkSigning.Proofs.TypedData.Interchange

Numbers and their decimal strings are interchangeable in a document. Any of the unsigned integers
in the message, at any depth, and of those that are parts of the domain may be written out as the
string of its decimal numeral. The document is then refused for the same reason as before, or is
read with the same types, primary type and domain and with a message that is written differently
but has the same value, so that its hash is the same for every account.

* `Json.WrittenOut`, `Document.WrittenOut`: the values and documents that differ only so.
* `Json.WrittenOut.ofJson?_eq`: a value of a message keeps its meaning.
* `Domain.WrittenOut.ofJson?_alike`: a domain is read or refused as before.
* `Document.WrittenOut.load?_alike`: so is a document, up to how its message is written.
* `Document.load?_of_writtenOut`: documents, with everything that is asked of them.
-/

namespace StarkSigning

/-! ## Values of a message -/

mutual

/-- Some of the unsigned integers of a value, at any depth, are written out as strings. -/
inductive Json.WrittenOut : Json → Json → Prop
  | same (j : Json) : Json.WrittenOut j j
  | numeral (n : UInt64) : Json.WrittenOut (.number (.natural n)) (.string (Nat.repr n.toNat))
  | array {items items' : List Json} :
      Json.ItemsWrittenOut items items' → Json.WrittenOut (.array items) (.array items')
  | object {members members' : List (String × Json)} :
      Json.MembersWrittenOut members members' →
      Json.WrittenOut (.object members) (.object members')

inductive Json.ItemsWrittenOut : List Json → List Json → Prop
  | nil : Json.ItemsWrittenOut [] []
  | cons {j j' : Json} {rest rest' : List Json} :
      Json.WrittenOut j j' → Json.ItemsWrittenOut rest rest' →
      Json.ItemsWrittenOut (j :: rest) (j' :: rest')

inductive Json.MembersWrittenOut : List (String × Json) → List (String × Json) → Prop
  | nil : Json.MembersWrittenOut [] []
  | cons {key : String} {j j' : Json} {rest rest' : List (String × Json)} :
      Json.WrittenOut j j' → Json.MembersWrittenOut rest rest' →
      Json.MembersWrittenOut ((key, j) :: rest) ((key, j') :: rest')

end

theorem Scalar.infer_repr (n : UInt64) : infer (Nat.repr n.toNat) = felt (Felt.ofUInt64 n) := by
  have numeral : Text.Numeral 10 (Nat.repr n.toNat).toList n.toNat := by
    rw [Nat.repr, String.toList_ofList]
    exact Text.numeral_toDigits n.toNat
  have below : n.toNat < fieldPrime := Nat.lt_trans n.toNat_lt (by decide)
  rw [infer_of_lt numeral below]
  rfl

mutual

theorem Json.WrittenOut.ofJson?_eq {j j' : Json} (written : WrittenOut j j') :
    TypedValue.ofJson? j = TypedValue.ofJson? j' := by
  cases written with
  | same j => rfl
  | numeral n =>
    rw [TypedValue.ofJson?, TypedValue.ofJson?, TypedValue.infer, Scalar.infer_repr]
  | array items => rw [TypedValue.ofJson?, TypedValue.ofJson?, items.ofItems?_eq]
  | object members => rw [TypedValue.ofJson?, TypedValue.ofJson?, members.ofMembers?_eq]

theorem Json.ItemsWrittenOut.ofItems?_eq {items items' : List Json}
    (written : ItemsWrittenOut items items') :
    TypedValue.ofItems? items = TypedValue.ofItems? items' := by
  cases written with
  | nil => rfl
  | cons first rest =>
    rw [TypedValue.ofItems?, TypedValue.ofItems?, first.ofJson?_eq, rest.ofItems?_eq]

theorem Json.MembersWrittenOut.ofMembers?_eq {members members' : List (String × Json)}
    (written : MembersWrittenOut members members') :
    TypedValue.ofMembers? members = TypedValue.ofMembers? members' := by
  cases written with
  | nil => rfl
  | cons first rest =>
    rw [TypedValue.ofMembers?, TypedValue.ofMembers?, first.ofJson?_eq, rest.ofMembers?_eq]

end

/-! ## Members of an object -/

/-- The same keys in the same order, with related values. -/
def Json.Memberwise (related : String → Json → Json → Prop)
    (members members' : List (String × Json)) : Prop :=
  List.Forall₂ (fun m m' => m.1 = m'.1 ∧ related m.1 m.2 m'.2) members members'

section Memberwise

variable {related : String → Json → Json → Prop} {members members' : List (String × Json)}

theorem Json.Memberwise.find? (pairwise : Memberwise related members members') (key : String) :
    Option.Rel (related key) (Table.find? key members) (Table.find? key members') := by
  unfold Memberwise at pairwise
  induction pairwise with
  | nil => exact .none
  | @cons m m' rest rest' first _ ih =>
    obtain ⟨k, j⟩ := m
    obtain ⟨k', j'⟩ := m'
    obtain ⟨rfl, values⟩ := first
    rw [Table.find?, Table.find?]
    by_cases here : k = key
    · subst here
      rw [if_pos rfl, if_pos rfl]
      exact .some values
    · rw [if_neg here, if_neg here]
      exact ih

variable {α : Type} {decode : Json → Except Json.DecodeError α} {results : α → α → Prop}

theorem Json.Memberwise.member_alike (pairwise : Memberwise related members members')
    (key : String) (each : ∀ j j', related key j j' → Outcome.Alike results (decode j) (decode j')) :
    Outcome.Alike (Option.Rel results) (Decode.member decode key members)
      (Decode.member decode key members') := by
  have found := pairwise.find? key
  unfold Decode.member
  generalize Table.find? key members = j, Table.find? key members' = j' at found ⊢
  cases found with
  | none => exact .ok .none
  | some values => exact (each _ _ values).map fun _ _ related => .some related

theorem Json.Decode.required_alike {found found' : Option α} (key : String)
    (same : Option.Rel results found found') :
    Outcome.Alike results (required key found) (required key found') := by
  cases same with
  | none => exact .error _
  | some related => exact .ok related

end Memberwise

/-! ## Domains -/

/-- A member of a domain is kept, or is one of the parts, an unsigned integer, written out. -/
inductive Domain.PartWrittenOut : String → Json → Json → Prop
  | same (key : String) (j : Json) : Domain.PartWrittenOut key j j
  | numeral {key : String} (part : key ∈ ["name", "version", "chainId"]) (n : UInt64) :
      Domain.PartWrittenOut key (.number (.natural n)) (.string (Nat.repr n.toNat))

inductive Domain.WrittenOut : Json → Json → Prop
  | same (j : Json) : Domain.WrittenOut j j
  | object {members members' : List (String × Json)} :
      Json.Memberwise Domain.PartWrittenOut members members' →
      Domain.WrittenOut (.object members) (.object members')

theorem Domain.PartWrittenOut.textOrNumber_alike {key : String} (j j' : Json)
    (written : PartWrittenOut key j j') :
    Outcome.Alike Eq (Json.Decode.textOrNumber j) (Json.Decode.textOrNumber j') := by
  cases written with
  | same => exact .of_eq rfl
  | numeral _ n => exact .ok rfl

theorem Domain.WrittenOut.ofJson?_alike {j j' : Json} (written : WrittenOut j j') :
    Outcome.Alike Eq (Domain.ofJson? j) (Domain.ofJson? j') := by
  cases written with
  | same => exact .of_eq rfl
  | object pairwise =>
    have part (key : String) : Outcome.Alike (Option.Rel Eq)
        (Json.Decode.member Json.Decode.textOrNumber key _)
        (Json.Decode.member Json.Decode.textOrNumber key _) :=
      pairwise.member_alike key PartWrittenOut.textOrNumber_alike
    unfold Domain.ofJson?
    refine (part "chainId").bind fun chainId _ sameChainId => ?_
    refine (part "name").bind fun name _ sameName => ?_
    refine (part "version").bind fun version _ sameVersion => ?_
    refine (Json.Decode.required_alike "name" sameName).bind ?_
    rintro name _ rfl
    refine (Json.Decode.required_alike "version" sameVersion).bind ?_
    rintro version _ rfl
    refine (Json.Decode.required_alike "chainId" sameChainId).bind ?_
    rintro chainId _ rfl
    exact .ok rfl

/-! ## Documents -/

/-- A member of a document is kept, or is the message or the domain with integers written out. -/
inductive Document.PartWrittenOut : String → Json → Json → Prop
  | same (key : String) (j : Json) : Document.PartWrittenOut key j j
  | message {j j' : Json} : Json.WrittenOut j j' → Document.PartWrittenOut "message" j j'
  | domain {j j' : Json} : Domain.WrittenOut j j' → Document.PartWrittenOut "domain" j j'

inductive Document.WrittenOut : Json → Json → Prop
  | same (j : Json) : Document.WrittenOut j j
  | object {members members' : List (String × Json)} :
      Json.Memberwise Document.PartWrittenOut members members' →
      Document.WrittenOut (.object members) (.object members')

namespace Document

theorem PartWrittenOut.eq_of_ne {key : String} {j j' : Json} (written : PartWrittenOut key j j')
    (notMessage : key ≠ "message") (notDomain : key ≠ "domain") : j = j' := by
  cases written with
  | same => rfl
  | message => exact absurd rfl notMessage
  | domain => exact absurd rfl notDomain

theorem PartWrittenOut.of_message {j j' : Json} (written : PartWrittenOut "message" j j') :
    Json.WrittenOut j j' := by
  -- The cases are split for any key: a literal one does not unify with the constructors' keys.
  generalize name : "message" = key at written
  cases written with
  | same => exact .same j
  | message values => exact values
  | domain => exact absurd name (by decide)

theorem PartWrittenOut.of_domain {j j' : Json} (written : PartWrittenOut "domain" j j') :
    Domain.WrittenOut j j' := by
  generalize name : "domain" = key at written
  cases written with
  | same => exact .same j
  | message => exact absurd name (by decide)
  | domain values => exact values

/-- The documents that are read: one content, and messages that differ by integers written out. -/
structure Interchanged (d d' : Document) : Prop where
  types : d'.types = d.types
  primary : d'.primary = d.primary
  domain : d'.domain = d.domain
  message : Json.WrittenOut d.message d'.message

theorem Interchanged.refl (d : Document) : Interchanged d d :=
  ⟨rfl, rfl, rfl, .same d.message⟩

section Members

variable {members members' : List (String × Json)}
  (pairwise : Json.Memberwise PartWrittenOut members members')

include pairwise

theorem member_kept {α : Type} (decode : Json → Except Json.DecodeError α) {key : String}
    (notMessage : key ≠ "message") (notDomain : key ≠ "domain") :
    Outcome.Alike (Option.Rel Eq) (Json.Decode.member decode key members)
      (Json.Decode.member decode key members') :=
  pairwise.member_alike key fun _ _ values =>
    .of_eq (congrArg decode (values.eq_of_ne notMessage notDomain))

theorem member_domain :
    Outcome.Alike (Option.Rel Eq) (Json.Decode.member Domain.ofJson? "domain" members)
      (Json.Decode.member Domain.ofJson? "domain" members') :=
  pairwise.member_alike "domain" fun _ _ values => values.of_domain.ofJson?_alike

theorem member_message :
    Outcome.Alike (Option.Rel Json.WrittenOut) (Json.Decode.member .ok "message" members)
      (Json.Decode.member .ok "message" members') :=
  pairwise.member_alike "message" fun _ _ values => .ok values.of_message

theorem ofJson?_object_alike :
    Outcome.Alike Interchanged (ofJson? (.object members)) (ofJson? (.object members')) := by
  unfold ofJson?
  refine (member_domain pairwise).bind fun domain _ sameDomain => ?_
  refine (member_message pairwise).bind fun message _ writtenMessage => ?_
  refine (member_kept pairwise _ (by decide) (by decide)).bind fun primary _ samePrimary => ?_
  refine (member_kept pairwise _ (by decide) (by decide)).bind fun types _ sameTypes => ?_
  refine (Json.Decode.required_alike "types" sameTypes).bind ?_
  rintro types _ rfl
  refine (Json.Decode.required_alike "primaryType" samePrimary).bind ?_
  rintro primary _ rfl
  refine (Json.Decode.required_alike "domain" sameDomain).bind ?_
  rintro domain _ rfl
  refine (Json.Decode.required_alike "message" writtenMessage).bind ?_
  intro message message' values
  exact .ok ⟨rfl, rfl, rfl, values⟩

theorem load?_object_alike :
    Outcome.Alike Interchanged (load? (.object members)) (load? (.object members')) := by
  -- The domains are judged first, and alike; only behind them the documents are read.
  have found := pairwise.find? "domain"
  unfold load? Json.member?
  dsimp only
  generalize Table.find? "domain" members = j, Table.find? "domain" members' = j' at found ⊢
  cases found with
  | none => exact .error _
  | @some value value' values =>
    have domains := values.of_domain.ofJson?_alike
    dsimp only
    generalize Domain.ofJson? value = domain, Domain.ofJson? value' = domain' at domains ⊢
    cases domains with
    | ok => exact (ofJson?_object_alike pairwise).mapError _
    | error cause => exact .error _

end Members

theorem WrittenOut.load?_alike {j j' : Json} (written : WrittenOut j j') :
    Outcome.Alike Interchanged (load? j) (load? j') := by
  cases written with
  | same => exact .refl Interchanged.refl _
  | object pairwise => exact load?_object_alike pairwise

theorem Interchanged.toParts?_eq {d d' : Document} (same : Interchanged d d') :
    d'.toParts? = d.toParts? := by
  rw [toParts?, toParts?, same.types, same.primary, same.domain, same.message.ofJson?_eq]

theorem Interchanged.messageHash?_eq {d d' : Document} (same : Interchanged d d')
    (account : Felt) : d'.messageHash? account = d.messageHash? account := by
  rw [messageHash?, messageHash?, same.toParts?_eq]

/-- Any of the unsigned integers of the message and any of the domain's parts may be written out:
the document is read or refused as before, and what is read has the same content and hashes. -/
theorem load?_of_writtenOut {j j' : Json} (written : WrittenOut j j') :
    ((∃ d, load? j = .ok d) ↔ ∃ d', load? j' = .ok d') ∧
      (∀ e, load? j = .error e ↔ load? j' = .error e) ∧
      ∀ d d', load? j = .ok d → load? j' = .ok d' →
        d'.types = d.types ∧ d'.primary = d.primary ∧ d'.domain = d.domain ∧
          TypedValue.ofJson? d'.message = TypedValue.ofJson? d.message ∧
          d'.toParts? = d.toParts? ∧
          ∀ account, d'.messageHash? account = d.messageHash? account := by
  have alike := written.load?_alike
  refine ⟨alike.exists_ok_iff, alike.error_iff, ?_⟩
  intro d d' loaded loaded'
  have same := alike.related_of_ok loaded loaded'
  exact ⟨same.types, same.primary, same.domain, same.message.ofJson?_eq.symm, same.toParts?_eq,
    same.messageHash?_eq⟩

def ticketTypes : Json :=
  .object [
    ("StarkNetDomain", TypeDef.toJson [⟨"name", "felt"⟩, ⟨"version", "felt"⟩, ⟨"chainId", "felt"⟩]),
    ("Ticket", TypeDef.toJson [⟨"day", "felt"⟩, ⟨"seats", "felt*"⟩])]

/-- A ticket some of whose integers are written in a way of one's own. -/
def ticket (write : UInt64 → Json) : Json :=
  .object [
    ("domain", .object [
      ("chainId", write 1), ("name", .string "Booth"), ("version", .number (.natural 2))]),
    ("message", .object [
      ("day", write 0), ("seats", .array [.number (.natural 7), write 18446744073709551615])]),
    ("primaryType", .string "Ticket"),
    ("types", ticketTypes)]

def asNumber (n : UInt64) : Json :=
  .number (.natural n)

def asNumeral (n : UInt64) : Json :=
  .string (Nat.repr n.toNat)

theorem writtenOut_ticket : WrittenOut (ticket asNumber) (ticket asNumeral) := by
  refine .object (.cons ⟨rfl, .domain (.object ?domain)⟩ (.cons ⟨rfl, .message (.object ?message)⟩
    (.cons ⟨rfl, .same _ _⟩ (.cons ⟨rfl, .same _ _⟩ .nil))))
  case domain =>
    have chainId := Domain.PartWrittenOut.numeral (by decide : "chainId" ∈ _) 1
    exact .cons ⟨rfl, chainId⟩ (.cons ⟨rfl, .same _ _⟩ (.cons ⟨rfl, .same _ _⟩ .nil))
  case message =>
    have last := Json.WrittenOut.numeral 18446744073709551615
    exact .cons (.numeral 0) (.cons (.array (.cons (.same _) (.cons last .nil))) .nil)

/-- A ticket, with integers as numbers and as numerals. -/
theorem load?_of_writtenOut_ticket :
    WrittenOut (ticket asNumber) (ticket asNumeral) ∧
      ∃ d d', load? (ticket asNumber) = .ok d ∧ load? (ticket asNumeral) = .ok d' ∧
        d.domain = ⟨"Booth", "2", "1"⟩ ∧ d'.domain = ⟨"Booth", "2", "1"⟩ ∧
        TypedValue.ofJson? d'.message = TypedValue.ofJson? d.message ∧
        ∀ account, d'.messageHash? account = d.messageHash? account := by
  have written := writtenOut_ticket
  obtain ⟨-, -, content⟩ := load?_of_writtenOut written
  have loaded : load? (ticket asNumber) = .ok _ := rfl
  have loaded' : load? (ticket asNumeral) = .ok _ := rfl
  obtain ⟨-, -, domain, message, -, hashes⟩ := content _ _ loaded loaded'
  exact ⟨written, _, _, loaded, loaded', rfl, domain, message, hashes⟩

end Document

end StarkSigning

import StarkSigning.Proofs.TypedData.Conformance

/-!
# StarkSigning.Proofs.TypedData.Noninterference

What a record holds beside its declared fields has no influence. Two values are the same where the
schema looks if they differ only in entries of records under keys that the schema does not declare
there, at any depth; what is declared at a place is given by the type of the field that leads to
it, and at a place of an element nothing is. Such values have one hash, or are refused for one
reason, and so have the messages made of them.

* `SameDeclared`: the values are the same where the schema looks.
* `SameDeclared.insert`: an entry that is not declared may be added.
* `SameDeclared.structHash?_eq`: one outcome for both values.
* `hashes_ignore_undeclared`: for the hash of a value and of a message.
-/

namespace StarkSigning

theorem TypedValue.toFelts?_congr {items items' : List TypedValue}
    (length : items.length = items'.length)
    (each : ∀ pair ∈ items.zip items', pair.1.toFelt? = pair.2.toFelt?) :
    toFelts? items = toFelts? items' := by
  induction items generalizing items' with
  | nil =>
    rw [List.length_nil, eq_comm, List.length_eq_zero_iff] at length
    rw [length]
  | cons v rest ih =>
    cases items' with
    | nil => cases length
    | cons w rest' =>
      rw [List.zip_cons_cons, List.forall_mem_cons] at each
      rw [toFelts?, toFelts?, each.1, ih (Nat.succ.inj length) each.2]

namespace Schema

open Outcome

/-- What the schema declares at a place of this type: at a place of an element or of an array, and
under a name that is not declared, nothing. -/
def declaredFields (s : Schema) (typeName : String) : TypeDef :=
  (s.typeDef? typeName).getD []

/-- The values differ at most in entries of records whose keys are not declared at their place. -/
inductive SameDeclared (s : Schema) : String → TypedValue → TypedValue → Prop
  | same (typeName : String) (v : TypedValue) : SameDeclared s typeName v v
  | array {typeName : String} {items items' : List TypedValue}
      (length : items.length = items'.length)
      (each : ∀ pair ∈ items.zip items', SameDeclared s TypeName.felt pair.1 pair.2) :
      SameDeclared s typeName (.array items) (.array items')
  | record {typeName : String} {fields fields' : List (String × TypedValue)}
      (present : ∀ f ∈ s.declaredFields typeName,
        (Table.find? f.name fields).isSome = (Table.find? f.name fields').isSome)
      (each : ∀ f ∈ s.declaredFields typeName, ∀ v w, Table.find? f.name fields = some v →
        Table.find? f.name fields' = some w → SameDeclared s f.typeName v w) :
      SameDeclared s typeName (.record fields) (.record fields')

variable {s : Schema} {typeName : String} {v w : TypedValue}

theorem SameDeclared.insert {key : String} (undeclared : ∀ f ∈ s.declaredFields typeName,
    f.name ≠ key) (extra : TypedValue) (fields : List (String × TypedValue)) :
    s.SameDeclared typeName (.record fields) (.record (Table.insert key extra fields)) := by
  refine .record ?_ ?_
  · intro f declared
    rw [Table.find?_insert_ne (undeclared f declared).symm]
  · intro f declared v w found found'
    rw [Table.find?_insert_ne (undeclared f declared).symm, found] at found'
    cases found'
    exact .same _ _

theorem SameDeclared.toFelt?_eq (alike : s.SameDeclared typeName v w) :
    v.toFelt? = w.toFelt? := by
  cases alike with
  | same _ _ => rfl
  | array _ _ => rfl
  | record _ _ => rfl

theorem SameDeclared.arrayHash?_eq (alike : s.SameDeclared typeName v w) :
    v.arrayHash? = w.arrayHash? := by
  cases alike with
  | same _ _ => rfl
  | array length each =>
    rw [TypedValue.arrayHash?_array, TypedValue.arrayHash?_array,
      TypedValue.toFelts?_congr length fun pair member => (each pair member).toFelt?_eq]
  | record _ _ => rfl

/-- The encodings agree where the hashes of records do. -/
theorem SameDeclared.encoding?_eq (alike : s.SameDeclared typeName v w)
    (records : s.structHash? typeName v = s.structHash? typeName w) :
    s.encoding? typeName v = s.encoding? typeName w := by
  rw [encoding?, encoding?, alike.toFelt?_eq, alike.arrayHash?_eq, records]

theorem SameDeclared.structHash?_eq (alike : s.SameDeclared typeName v w) :
    s.structHash? typeName v = s.structHash? typeName w := by
  induction alike with
  | same typeName v => rfl
  | @array typeName items items' _ _ _ =>
    -- Under a record type only the shape is looked at.
    rw [structHash?_of_not_record (TypedValue.array_ne_record items),
      structHash?_of_not_record (TypedValue.array_ne_record items')]
    rfl
  | @record typeName fields fields' present each ih =>
    cases declared : s.typeDef? typeName with
    | none => rw [structHash?_of_undeclared declared, structHash?_of_undeclared declared]
    | some d =>
      rw [declaredFields, declared, Option.getD_some] at present each ih
      have encodings : ∀ f ∈ d,
          s.declaredEncoding? typeName fields f = s.declaredEncoding? typeName fields' f := by
        intro f field
        have both := present f field
        rw [declaredEncoding?, declaredEncoding?]
        cases found : Table.find? f.name fields with
        | none =>
          rw [found, Option.isSome_none, eq_comm, Option.isSome_eq_false_iff,
            Option.isNone_iff_eq_none] at both
          rw [both]
        | some x =>
          rw [found, Option.isSome_some, eq_comm, Option.isSome_iff_exists] at both
          obtain ⟨y, found'⟩ := both
          rw [found']
          dsimp only
          rw [(each f field x y found found').encoding?_eq (ih f field x y found found')]
      rw [structHash?_record, structHash?_record, elements?, elements?,
        resolve?_eq_ok_iff.mpr declared, mapError_ok, ok_bind, ok_bind, mapM_congr encodings]

/-- Whatever the schema, values that are the same where it looks have one hash under a type, or are
refused for one reason, and so have messages with them as values of the primary type. -/
theorem hashes_ignore_undeclared (s : Schema) :
    (∀ typeName v w, s.SameDeclared typeName v w →
      s.structHash? typeName v = s.structHash? typeName w) ∧
    ∀ account v w, s.SameDeclared s.primary v w →
      s.messageHash? account v = s.messageHash? account w := by
  constructor
  · intro typeName v w alike
    exact alike.structHash?_eq
  · intro account v w alike
    rw [messageHash?, messageHash?, alike.structHash?_eq]

/-- A party with a name of its own, and a payment from it with a remark; neither is declared. -/
def namedParty : List (String × TypedValue) :=
  Table.insert "nick" (.record longParty) longParty

def remarkedPayment : TypedValue :=
  .record [("remark", .array [.record []]), ("from", .record namedParty)]

theorem sameDeclared_payment : payment.SameDeclared "Payment" longPayment remarkedPayment := by
  have declared : payment.declaredFields "Payment" = paymentFields := by decide
  have party : payment.SameDeclared "Party" (.record longParty) (.record namedParty) :=
    .insert (by decide) _ _
  refine .record ?_ ?_
  · rw [declared]
    decide
  · rw [declared]
    intro f member v w found found'
    simp only [paymentFields, List.mem_cons, List.not_mem_nil, or_false] at member
    rcases member with rfl | rfl | rfl | rfl
    · cases found
      cases found'
      exact party
    · cases found
    · cases found
    · cases found

/-- A payment is refused with the remarks for what it is refused for without them; a message of the
name of a domain keeps its hash where it is given a memo. -/
theorem hashes_ignore_undeclared_remarks :
    (payment.SameDeclared "Payment" longPayment remarkedPayment ∧
      payment.structHash? "Payment" remarkedPayment = .error (.felt (.tooManyBytes 41))) ∧
    (nameOnly ⟨"5", "1", "1"⟩).SameDeclared TypeName.domain (.record [("name", .infer "5")])
        (.record (Table.insert "memo" (.array []) [("name", .infer "5")])) ∧
      ∃ h, (nameOnly ⟨"5", "1", "1"⟩).messageHash? Felt.one
          (.record [("name", .infer "5")]) = .ok h ∧
        (nameOnly ⟨"5", "1", "1"⟩).messageHash? Felt.one
          (.record (Table.insert "memo" (.array []) [("name", .infer "5")])) = .ok h := by
  obtain ⟨values, -⟩ := hashes_ignore_undeclared payment
  obtain ⟨-, messages⟩ := hashes_ignore_undeclared (nameOnly ⟨"5", "1", "1"⟩)
  have spelled : (Scalar.infer "5").toFelt? = .ok five := eq_ok_of_toOption (by decide +kernel)
  obtain ⟨h, hashes⟩ := exists_messageHash?_nameOnly
  have hashed := hashes ⟨"5", "1", "1"⟩ [("name", .infer "5")] "5" spelled rfl spelled
  have undeclared : ∀ f ∈ (nameOnly ⟨"5", "1", "1"⟩).declaredFields TypeName.domain,
      f.name ≠ "memo" := by decide
  have memo := SameDeclared.insert undeclared (.array []) [("name", .infer "5")]
  refine ⟨⟨sameDeclared_payment, ?_⟩, memo, h, hashed, ?_⟩
  · rw [← values "Payment" _ _ sameDeclared_payment, structHash?_longPayment]
  · rw [← messages Felt.one _ _ memo, hashed]

end Schema
end StarkSigning

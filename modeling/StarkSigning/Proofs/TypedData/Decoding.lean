import StarkSigning.Proofs.TypedData.Unfolding

/-!
# StarkSigning.Proofs.TypedData.Decoding

Full texts are read in one way only. No lengths stand in them, but where names have no delimiters a
text is a sequence of words, each closed by a delimiter: the name of a type by its parenthesis, the
name of a field by a colon, the type of a field by a comma or, the last one, by a parenthesis. A
type without fields has an empty word in their place, closed by the parenthesis, which is no field
because a field has a colon.

* `spell_injective`: words and delimiters are read off their concatenation.
* `fieldTokens_append_inj`, `tokens_injective`: declarations are read off their words.
* `typeText?_decodes`: one full text in two schemas means the same declarations in both.
-/

namespace StarkSigning

namespace TypeDef

/-- The characters that separate names in the text of a type. -/
def isDelimiter (c : Char) : Bool :=
  c = '(' || c = ')' || c = ',' || c = ':'

/-- A name without delimiters. -/
def Plain (name : String) : Prop :=
  ∀ c ∈ name.toList, isDelimiter c = false

instance (name : String) : Decidable (Plain name) :=
  List.decidableBAll (fun c => isDelimiter c = false) name.toList

/-- A word and the delimiter behind it. -/
abbrev Token := String × Char

/-- The word is plain, so that the delimiter closes it. -/
def Token.Closed (t : Token) : Prop :=
  Plain t.1 ∧ isDelimiter t.2 = true

def spell (tokens : List Token) : List Char :=
  tokens.flatMap fun t => t.1.toList ++ [t.2]

theorem spell_cons (t : Token) (rest : List Token) :
    spell (t :: rest) = t.1.toList ++ t.2 :: spell rest := by
  rw [spell, List.flatMap_cons, List.append_assoc, List.singleton_append, spell]

theorem spell_append (first second : List Token) :
    spell (first ++ second) = spell first ++ spell second :=
  List.flatMap_append

/-- The first delimiter ends the word in front of it. -/
theorem append_delimiter_inj {word word' rest rest' : List Char} {c c' : Char}
    (plain : ∀ x ∈ word, isDelimiter x = false) (plain' : ∀ x ∈ word', isDelimiter x = false)
    (closes : isDelimiter c = true) (closes' : isDelimiter c' = true)
    (same : word ++ c :: rest = word' ++ c' :: rest') : word = word' ∧ c = c' ∧ rest = rest' := by
  induction word generalizing word' with
  | nil =>
    cases word' with
    | nil =>
      obtain ⟨sameChar, sameRest⟩ := List.cons.inj same
      exact ⟨rfl, sameChar, sameRest⟩
    | cons x word' =>
      obtain ⟨rfl, -⟩ := List.cons.inj same
      cases closes.symm.trans (plain' c List.mem_cons_self)
  | cons x word ih =>
    cases word' with
    | nil =>
      obtain ⟨rfl, -⟩ := List.cons.inj same
      cases closes'.symm.trans (plain x List.mem_cons_self)
    | cons x' word' =>
      obtain ⟨rfl, sameTail⟩ := List.cons.inj same
      obtain ⟨rfl, sameChar, sameRest⟩ :=
        ih (fun y member => plain y (List.mem_cons_of_mem x member))
          (fun y member => plain' y (List.mem_cons_of_mem x member)) sameTail
      exact ⟨rfl, sameChar, sameRest⟩

theorem spell_injective {tokens tokens' : List Token} (closed : ∀ t ∈ tokens, t.Closed)
    (closed' : ∀ t ∈ tokens', t.Closed) (same : spell tokens = spell tokens') :
    tokens = tokens' := by
  induction tokens generalizing tokens' with
  | nil =>
    cases tokens' with
    | nil => rfl
    | cons t rest =>
      rw [spell_cons] at same
      cases List.append_ne_nil_of_right_ne_nil _ (List.cons_ne_nil _ _) same.symm
  | cons t rest ih =>
    cases tokens' with
    | nil =>
      rw [spell_cons] at same
      cases List.append_ne_nil_of_right_ne_nil _ (List.cons_ne_nil _ _) same
    | cons t' rest' =>
      rw [List.forall_mem_cons] at closed closed'
      rw [spell_cons, spell_cons] at same
      obtain ⟨sameWord, sameDelimiter, sameRest⟩ :=
        append_delimiter_inj closed.1.1 closed'.1.1 closed.1.2 closed'.1.2 same
      rw [Prod.ext (String.toList_inj.mp sameWord) sameDelimiter, ih closed.2 closed'.2 sameRest]

/-- The words of the fields of a type; where it has none, the empty word in front of the closing
parenthesis. -/
def fieldTokens : TypeDef → List Token
  | [] => [("", ')')]
  | [f] => [(f.name, ':'), (f.typeName, ')')]
  | f :: g :: rest => (f.name, ':') :: (f.typeName, ',') :: fieldTokens (g :: rest)

/-- The words of the text of a type. -/
def tokens (declaration : String × TypeDef) : List Token :=
  (declaration.1, '(') :: fieldTokens declaration.2

theorem toList_fields (d : TypeDef) :
    (",".intercalate (d.map FieldDecl.text)).toList ++ [')'] = spell (fieldTokens d) := by
  fun_induction fieldTokens d with
  | case1 => simp [spell]
  | case2 f => simp [spell, FieldDecl.text]
  | case3 f g rest ih =>
    rw [spell_cons, spell_cons, ← ih, List.map_cons, List.map_cons,
      String.intercalate_cons_cons, ← List.map_cons]
    simp [FieldDecl.text]

theorem toList_text (name : String) (d : TypeDef) :
    (text name d).toList = spell (tokens (name, d)) := by
  rw [tokens, spell_cons, ← toList_fields]
  simp [text]

/-- The words of the fields tell where they end. -/
theorem fieldTokens_append_inj {d d' : TypeDef} {rest rest' : List Token}
    (same : fieldTokens d ++ rest = fieldTokens d' ++ rest') : d = d' ∧ rest = rest' := by
  have field_eq : ∀ {f f' : FieldDecl}, f.name = f'.name → f.typeName = f'.typeName → f = f' := by
    rintro ⟨_, _⟩ ⟨_, _⟩ ⟨⟩ ⟨⟩
    rfl
  fun_induction fieldTokens d generalizing d' with
  | case1 =>
    match d' with
    | [] => simpa [fieldTokens] using same
    | [f'] => simp [fieldTokens] at same
    | f' :: g' :: more' => simp [fieldTokens] at same
  | case2 f =>
    match d' with
    | [] => simp [fieldTokens] at same
    | [f'] =>
      simp only [fieldTokens, List.cons_append, List.nil_append, List.cons.injEq, Prod.mk.injEq,
        and_true] at same
      exact ⟨by rw [field_eq same.1 same.2.1], same.2.2⟩
    | f' :: g' :: more' => simp [fieldTokens] at same
  | case3 f g more ih =>
    match d' with
    | [] => simp [fieldTokens] at same
    | [f'] => simp [fieldTokens] at same
    | f' :: g' :: more' =>
      simp only [fieldTokens, List.cons_append, List.cons.injEq, Prod.mk.injEq,
        and_true] at same
      obtain ⟨sameFields, sameRest⟩ := ih same.2.2
      exact ⟨by rw [field_eq same.1 same.2.1, sameFields], sameRest⟩

theorem tokens_injective {declarations declarations' : List (String × TypeDef)}
    (same : declarations.flatMap tokens = declarations'.flatMap tokens) :
    declarations = declarations' := by
  induction declarations generalizing declarations' with
  | nil =>
    cases declarations' with
    | nil => rfl
    | cons pair rest => cases same
  | cons pair rest ih =>
    cases declarations' with
    | nil => cases same
    | cons pair' rest' =>
      rw [List.flatMap_cons, List.flatMap_cons, tokens, tokens, List.cons_append,
        List.cons_append, List.cons.injEq, Prod.mk.injEq, and_iff_left rfl] at same
      obtain ⟨sameFields, sameRest⟩ := fieldTokens_append_inj same.2
      rw [Prod.ext same.1 sameFields, ih sameRest]

theorem closed_of_mem_fieldTokens {d : TypeDef} (names : ∀ f ∈ d, Plain f.name)
    (typeNames : ∀ f ∈ d, Plain f.typeName) : ∀ t ∈ fieldTokens d, t.Closed := by
  fun_induction fieldTokens d with
  | case1 =>
    intro t member
    rw [List.mem_singleton.mp member]
    exact ⟨by decide, rfl⟩
  | case2 f =>
    simp only [List.forall_mem_cons] at names typeNames ⊢
    exact ⟨⟨names.1, rfl⟩, ⟨typeNames.1, rfl⟩, fun t member => absurd member List.not_mem_nil⟩
  | case3 f g rest ih =>
    rw [List.forall_mem_cons] at names typeNames
    simp only [List.forall_mem_cons]
    exact ⟨⟨names.1, rfl⟩, ⟨typeNames.1, rfl⟩, ih names.2 typeNames.2⟩

end TypeDef

namespace Schema

open Dependencies

/-- No name of a declared type or of a field has a delimiter. -/
structure PlainNames (s : Schema) : Prop where
  type_names : ∀ name ∈ Table.keys s.types, TypeDef.Plain name
  field_names : ∀ pair ∈ s.types, ∀ f ∈ pair.2, TypeDef.Plain f.name

/-- The type names of fields are plain too, being primitive or declared. -/
theorem PlainNames.typeName {s : Schema} (plain : s.PlainNames) (accepted : s.Accepted)
    {name : String} {d : TypeDef} (member : (name, d) ∈ s.types) {f : FieldDecl} (field : f ∈ d) :
    TypeDef.Plain f.typeName := by
  cases kind : TypeName.isPrimitive f.typeName with
  | false =>
    exact plain.type_names _ (accepted.closed name _ ⟨d, f, member, field, rfl, kind⟩)
  | true =>
    rw [TypeName.isPrimitive, Bool.or_eq_true, decide_eq_true_eq, decide_eq_true_eq] at kind
    rcases kind with element | array
    · rw [element]; decide
    · rw [array]; decide

theorem PlainNames.closed_tokens {s : Schema} (plain : s.PlainNames) (accepted : s.Accepted)
    {declarations : List (String × TypeDef)} (sub : ∀ pair ∈ declarations, pair ∈ s.types) :
    ∀ t ∈ declarations.flatMap TypeDef.tokens, t.Closed := by
  intro t member
  obtain ⟨⟨name, d⟩, declared, token⟩ := List.mem_flatMap.mp member
  have known := sub (name, d) declared
  rcases List.mem_cons.mp token with rfl | inFields
  · exact ⟨plain.type_names name (Table.mem_keys_of_mem known), rfl⟩
  · exact TypeDef.closed_of_mem_fieldTokens (plain.field_names _ known)
      (fun f field => plain.typeName accepted known field) t inFields

theorem toList_textOf (declarations : List (String × TypeDef)) :
    (textOf declarations).toList = TypeDef.spell (declarations.flatMap TypeDef.tokens) := by
  induction declarations with
  | nil => rfl
  | cons pair rest ih =>
    rw [textOf] at ih ⊢
    rw [List.map_cons, String.join_cons, String.toList_append, ih, List.flatMap_cons,
      TypeDef.spell_append, TypeDef.toList_text]

theorem textOf_injective {s s' : Schema} (accepted : s.Accepted) (accepted' : s'.Accepted)
    (plain : s.PlainNames) (plain' : s'.PlainNames)
    {declarations declarations' : List (String × TypeDef)}
    (sub : ∀ pair ∈ declarations, pair ∈ s.types) (sub' : ∀ pair ∈ declarations', pair ∈ s'.types)
    (same : textOf declarations = textOf declarations') : declarations = declarations' := by
  have spelled := congrArg String.toList same
  rw [toList_textOf, toList_textOf] at spelled
  exact TypeDef.tokens_injective (TypeDef.spell_injective (plain.closed_tokens accepted sub)
    (plain'.closed_tokens accepted' sub') spelled)

/-- Two declared types have one full text only under one name, with one set of types below them,
and with the same fields in both schemas for the type and all of these. -/
theorem typeText?_decodes {s s' : Schema} (accepted : s.Accepted) (accepted' : s'.Accepted)
    (plain : s.PlainNames) (plain' : s'.PlainNames) {name name' : String} {d d' : TypeDef}
    (declared : s.typeDef? name = some d) (declared' : s'.typeDef? name' = some d')
    (same : s.typeText? name = s'.typeText? name') :
    TypeName.canonical name = TypeName.canonical name' ∧
    (∀ other, Relation.TransGen (Refers s.types) (TypeName.canonical name) other ↔
      Relation.TransGen (Refers s'.types) (TypeName.canonical name') other) ∧
    ∀ other, Relation.ReflTransGen (Refers s.types) (TypeName.canonical name) other →
      ∃ fields, s.typeDef? other = some fields ∧ s'.typeDef? other = some fields := by
  have member := accepted.typeDef?_eq_some_iff.mp declared
  have member' := accepted'.typeDef?_eq_some_iff.mp declared'
  obtain ⟨names, unfolds⟩ := exists_unfolds accepted.distinct accepted.closed accepted.acyclic member
  obtain ⟨names', unfolds'⟩ :=
    exists_unfolds accepted'.distinct accepted'.closed accepted'.acyclic member'
  obtain ⟨others, keys, members, text⟩ := accepted.exists_typeText?_eq declared unfolds
  obtain ⟨others', keys', members', text'⟩ := accepted'.exists_typeText?_eq declared' unfolds'
  rw [text, text', Except.ok.injEq] at same
  have declarations := textOf_injective accepted accepted' plain plain'
    (List.forall_mem_cons.mpr ⟨member, members⟩) (List.forall_mem_cons.mpr ⟨member', members'⟩) same
  obtain ⟨sameHead, rfl⟩ := List.cons.inj declarations
  obtain ⟨sameName, rfl⟩ := Prod.mk.inj sameHead
  have reached : ∀ other, other ∈ Table.keys others ↔
      Relation.TransGen (Refers s.types) (TypeName.canonical name) other := by
    intro other
    rw [keys, List.mem_eraseDups, unfolds.mem_iff_transGen accepted.distinct member]
  have reached' : ∀ other, other ∈ Table.keys others ↔
      Relation.TransGen (Refers s'.types) (TypeName.canonical name') other := by
    intro other
    rw [keys', List.mem_eraseDups, unfolds'.mem_iff_transGen accepted'.distinct member']
  refine ⟨sameName, fun other => (reached other).symm.trans (reached' other), ?_⟩
  intro other reaches
  have inBoth : ∃ fields, (other, fields) ∈ s.types ∧ (other, fields) ∈ s'.types := by
    rcases Relation.reflTransGen_iff_eq_or_transGen.mp reaches with rfl | below
    · exact ⟨d, member, sameName ▸ member'⟩
    · obtain ⟨⟨_, fields⟩, listed, rfl⟩ := List.mem_map.mp ((reached other).mpr below)
      exact ⟨fields, members _ listed, members' _ listed⟩
  obtain ⟨fields, left, right⟩ := inBoth
  exact ⟨fields, accepted.typeDef?_of_mem left, accepted'.typeDef?_of_mem right⟩

/-- Another schema with the types of a payment, and a type of its own above them. -/
def ledgerTypes : List (String × TypeDef) :=
  ("Ledger", [⟨"paid", "Payment"⟩, ⟨"", "felt"⟩]) :: paymentTypes

def ledger : Schema :=
  ⟨Table.ofList (canonicalTypes ledgerTypes), "Ledger", ⟨"5", "2", "1"⟩⟩

theorem accepted_ledger : ledger.Accepted := by
  obtain ⟨e, named⟩ := exists_toFelt?_five
  have wf : WellFormed ledgerTypes "Ledger" ⟨"5", "2", "1"⟩ :=
    wellFormed_of_rank paymentRank (by decide) (by decide) (by decide) (by decide) (by decide)
      named (by decide)
  exact ⟨ledgerTypes, "Ledger", _, ofTypes?_of_wellFormed wf⟩

/-- Schemas that declare the types of a payment agree on its full text. -/
theorem typeText?_payment {s : Schema} (accepted : s.Accepted)
    (declared : s.typeDef? "Payment" = some paymentFields)
    (party : ("Party", partyFields) ∈ s.types) (money : ("Money", moneyFields) ∈ s.types) :
    s.typeText? "Payment" = .ok (textOf
      [("Payment", paymentFields), ("Party", partyFields), ("Money", moneyFields)]) := by
  obtain ⟨others, keys, members, text⟩ :=
    accepted.exists_typeText?_eq declared (unfolds_payment party money)
  have sub : [("Party", partyFields), ("Money", moneyFields)] ⊆ s.types :=
    List.cons_subset.mpr ⟨party, List.cons_subset.mpr ⟨money, List.nil_subset _⟩⟩
  rw [eraseDups_paymentUnfolding] at keys
  have others_eq : others = [("Party", partyFields), ("Money", moneyFields)] :=
    Table.eq_of_keys_eq accepted.distinct members sub keys
  rw [text, others_eq]
  rfl

/-- A payment is the same type in its own schema and in that of a ledger, down to the money. -/
theorem typeText?_decodes_payment :
    payment.Accepted ∧ ledger.Accepted ∧ payment.PlainNames ∧ ledger.PlainNames ∧
      payment.typeText? "Payment" = ledger.typeText? "Payment" ∧
      Relation.TransGen (Refers payment.types) "Payment" "Money" ∧
      Relation.TransGen (Refers ledger.types) "Payment" "Money" ∧
      ∃ fields, payment.typeDef? "Money" = some fields ∧
        ledger.typeDef? "Money" = some fields := by
  have plain : payment.PlainNames := ⟨by decide, by decide⟩
  have plain' : ledger.PlainNames := ⟨by decide, by decide⟩
  have declared : payment.typeDef? "Payment" = some paymentFields := by decide
  have declared' : ledger.typeDef? "Payment" = some paymentFields := by decide
  have same : payment.typeText? "Payment" = ledger.typeText? "Payment" := by
    rw [typeText?_payment accepted_payment declared (by decide) (by decide),
      typeText?_payment accepted_ledger declared' (by decide) (by decide)]
  have refers : Refers payment.types "Payment" "Money" :=
    ⟨paymentFields, ⟨"sum", "Money"⟩, by decide, by decide, rfl, rfl⟩
  obtain ⟨-, reached, fields⟩ :=
    typeText?_decodes accepted_payment accepted_ledger plain plain' declared declared' same
  exact ⟨accepted_payment, accepted_ledger, plain, plain', same, .single refers,
    (reached "Money").mp (.single refers), fields "Money" (.single refers)⟩

end Schema
end StarkSigning

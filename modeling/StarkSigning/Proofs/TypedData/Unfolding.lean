import Mathlib.Order.WellFoundedSet
import StarkSigning.Proofs.TypedData.Acceptance

/-!
# StarkSigning.Proofs.TypedData.Unfolding

The full text of a type against the unfolding of its fields. The unfolding repeats a type with all
that it refers to at every reference, so that it can be exponentially longer than the declarations.
The walk lists a type at its first reference and skips it at every later one, with everything below
it. What is skipped is never new: of a listed type that is not on the path, all references are
listed already. So the walk lists the unfolding with repetitions left out.

* `appendNew`: the names of a list that another does not have, each once, behind that other.
* `Unfolds`, `Unfolds.mem_iff_transGen`: the unfolding, and what stands in it.
* `CompleteOff`: the invariant of the walk; `collect?_eq_appendNew`: what the walk lists.
* `typeText?_eq_unfolding`: the full text of a type of an accepted schema.
-/

namespace StarkSigning

section FirstOccurrences

variable {α : Type} [DecidableEq α]

theorem removeAll_append (xs as bs : List α) :
    xs.removeAll (as ++ bs) = (xs.removeAll as).removeAll bs := by
  simp only [List.removeAll, List.filter_filter]
  apply List.filter_congr
  intro x _
  simp [Bool.and_comm]

theorem append_removeAll (xs ys as : List α) :
    (xs ++ ys).removeAll as = xs.removeAll as ++ ys.removeAll as :=
  List.filter_append xs ys

theorem removeAll_congr {as bs : List α} (same : ∀ x, x ∈ as ↔ x ∈ bs) (xs : List α) :
    xs.removeAll as = xs.removeAll bs := by
  apply List.filter_congr
  intro x _
  simp [same]

theorem removeAll_eq_nil_of_subset {xs as : List α} (sub : xs ⊆ as) : xs.removeAll as = [] := by
  apply List.filter_eq_nil_iff.mpr
  intro x member
  simpa using sub member

theorem nodup_eraseDups (xs : List α) : xs.eraseDups.Nodup := by
  generalize size : xs.length = n
  induction n using Nat.strong_induction_on generalizing xs with
  | h n ih =>
    cases xs with
    | nil => exact List.nodup_nil
    | cons x rest =>
      have shorter : (rest.filter fun y => !y == x).length < n := by
        rw [← size, List.length_cons]
        exact Nat.lt_succ_of_le (List.length_filter_le _ _)
      rw [List.eraseDups_cons, List.nodup_cons, List.mem_eraseDups]
      exact ⟨by simp, ih _ shorter _ rfl⟩

/-- The list, followed by the names it does not have, each once, in the order in which they
occur first. -/
def appendNew (listed names : List α) : List α :=
  listed ++ (names.removeAll listed).eraseDups

theorem appendNew_nil (listed : List α) : appendNew listed [] = listed := by
  rw [appendNew, List.nil_removeAll, List.eraseDups_nil, List.append_nil]

theorem nil_appendNew (names : List α) : appendNew [] names = names.eraseDups := by
  rw [appendNew, List.removeAll_nil, List.nil_append]

/-- Names may be appended one part after the other. -/
theorem appendNew_append (listed first second : List α) :
    appendNew listed (first ++ second) = appendNew (appendNew listed first) second := by
  have once : ∀ x, x ∈ (first.removeAll listed).eraseDups ↔ x ∈ first.removeAll listed :=
    fun x => List.mem_eraseDups
  simp only [appendNew, append_removeAll, List.eraseDups_append, removeAll_append,
    removeAll_congr once, List.append_assoc]

theorem appendNew_of_subset {listed names : List α} (sub : names ⊆ listed) :
    appendNew listed names = listed := by
  rw [appendNew, removeAll_eq_nil_of_subset sub, List.eraseDups_nil, List.append_nil]

theorem appendNew_singleton {listed : List α} {x : α} (fresh : x ∉ listed) :
    appendNew listed [x] = listed ++ [x] := by
  simp [appendNew, List.removeAll, fresh, List.eraseDups_cons]

end FirstOccurrences

namespace Dependencies

/-- The full unfolding of fields: in declared order each composite type that they name, every time
it is named, followed at once by the unfolding of its own fields. -/
inductive Unfolds (types : List (String × TypeDef)) : List FieldDecl → List String → Prop
  | nil : Unfolds types [] []
  | primitive {f : FieldDecl} {rest : List FieldDecl} {names : List String}
      (primitive : TypeName.isPrimitive f.typeName = true) (after : Unfolds types rest names) :
      Unfolds types (f :: rest) names
  | composite {f : FieldDecl} {rest : List FieldDecl} {d : TypeDef} {below after : List String}
      (composite : TypeName.isPrimitive f.typeName = false) (declared : (f.typeName, d) ∈ types)
      (inner : Unfolds types d below) (outer : Unfolds types rest after) :
      Unfolds types (f :: rest) (f.typeName :: (below ++ after))

theorem refers_iff_of_mem {types : Table TypeDef} (distinct : (Table.keys types).Nodup)
    {name other : String} {d : TypeDef} (member : (name, d) ∈ types) :
    Refers types name other ↔
      ∃ f ∈ d, f.typeName = other ∧ TypeName.isPrimitive other = false := by
  constructor
  · rintro ⟨d', f, member', field, named, composite⟩
    rw [← Table.find?_eq_some_iff distinct] at member member'
    cases member.symm.trans member'
    exact ⟨f, field, named, composite⟩
  · rintro ⟨f, field, named, composite⟩
    exact ⟨d, f, member, field, named, composite⟩

/-- What a type refers to, directly or through others, is what its fields name or refer to. -/
theorem transGen_iff_of_mem {types : Table TypeDef} (distinct : (Table.keys types).Nodup)
    {name other : String} {d : TypeDef} (member : (name, d) ∈ types) :
    Relation.TransGen (Refers types) name other ↔
      ∃ f ∈ d, TypeName.isPrimitive f.typeName = false ∧
        Relation.ReflTransGen (Refers types) f.typeName other := by
  simp only [Relation.TransGen.head'_iff, refers_iff_of_mem distinct member]
  constructor
  · rintro ⟨_, ⟨f, field, rfl, composite⟩, reaches⟩
    exact ⟨f, field, composite, reaches⟩
  · rintro ⟨f, field, composite, reaches⟩
    exact ⟨f.typeName, ⟨f, field, rfl, composite⟩, reaches⟩

theorem Unfolds.mem_iff {types : Table TypeDef} (distinct : (Table.keys types).Nodup)
    {fields : List FieldDecl} {names : List String} (unfolds : Unfolds types fields names)
    {other : String} :
    other ∈ names ↔ ∃ f ∈ fields, TypeName.isPrimitive f.typeName = false ∧
      Relation.ReflTransGen (Refers types) f.typeName other := by
  induction unfolds with
  | nil => simp
  | primitive primitive after ih => simp [ih, primitive]
  | composite composite declared inner outer ih ih' =>
    rw [List.mem_cons, List.mem_append, ih, ih', ← transGen_iff_of_mem distinct declared,
      ← or_assoc, ← Relation.reflTransGen_iff_eq_or_transGen]
    simp [composite]

theorem Unfolds.mem_iff_transGen {types : Table TypeDef} (distinct : (Table.keys types).Nodup)
    {name other : String} {d : TypeDef} (member : (name, d) ∈ types) {names : List String}
    (unfolds : Unfolds types d names) :
    other ∈ names ↔ Relation.TransGen (Refers types) name other := by
  rw [unfolds.mem_iff distinct, transGen_iff_of_mem distinct member]

/-! ## Every type unfolds -/

/-- Where references only go down in some rank there are no cycles. -/
theorem acyclic_of_rank {types : List (String × TypeDef)} (rank : String → Nat)
    (descends : ∀ name other, Refers types name other → rank other < rank name) :
    Acyclic types := by
  have below : ∀ {name other}, Relation.TransGen (Refers types) name other →
      rank other < rank name := by
    intro name other reaches
    induction reaches with
    | single refers => exact descends _ _ refers
    | tail _ refers ih => exact Nat.lt_trans (descends _ _ refers) ih
  intro name cycle
  exact Nat.lt_irrefl _ (below cycle)

/-- To prove a property of a declared type it may be assumed of the types it refers to. -/
theorem Acyclic.refers_induction {types : Table TypeDef} (closed : Closed types)
    (acyclic : Acyclic types) {motive : String → Prop}
    (step : ∀ name ∈ Table.keys types, (∀ other, Refers types name other → motive other) →
      motive name) {name : String} (declared : name ∈ Table.keys types) : motive name := by
  let below : String → String → Prop := fun a b => Relation.TransGen (Refers types) b a
  have strict : IsStrictOrder String below :=
    { irrefl := acyclic
      trans := fun a b c first second => Relation.TransGen.trans second first }
  have wellFounded : Set.WellFoundedOn {n | n ∈ Table.keys types} below :=
    (List.finite_toSet _).wellFoundedOn
  refine wellFounded.induction (P := motive) declared ?_
  intro name declared ih
  apply step name declared
  intro other refers
  exact ih other (closed name other refers) (.single refers)

theorem exists_unfolds_of_forall {types : Table TypeDef} {fields : List FieldDecl}
    (each : ∀ f ∈ fields, TypeName.isPrimitive f.typeName = false →
      ∃ d names, (f.typeName, d) ∈ types ∧ Unfolds types d names) :
    ∃ names, Unfolds types fields names := by
  induction fields with
  | nil => exact ⟨[], .nil⟩
  | cons f rest ih =>
    obtain ⟨after, outer⟩ := ih fun g member => each g (List.mem_cons_of_mem f member)
    cases kind : TypeName.isPrimitive f.typeName with
    | true => exact ⟨after, .primitive kind outer⟩
    | false =>
      obtain ⟨d, below, declared, inner⟩ := each f List.mem_cons_self kind
      exact ⟨_, .composite kind declared inner outer⟩

theorem exists_unfolds {types : Table TypeDef} (distinct : (Table.keys types).Nodup)
    (closed : Closed types) (acyclic : Acyclic types) {name : String} {d : TypeDef}
    (member : (name, d) ∈ types) : ∃ names, Unfolds types d names := by
  have unfoldable : ∀ name ∈ Table.keys types,
      ∃ d names, (name, d) ∈ types ∧ Unfolds types d names := by
    intro name declared
    refine acyclic.refers_induction closed
      (motive := fun name => ∃ d names, (name, d) ∈ types ∧ Unfolds types d names) ?_ declared
    intro name declared ih
    obtain ⟨⟨name, d⟩, member, rfl⟩ := List.mem_map.mp declared
    obtain ⟨names, unfolds⟩ := exists_unfolds_of_forall fun f field composite =>
      ih f.typeName ⟨d, f, member, field, rfl, composite⟩
    exact ⟨d, names, member, unfolds⟩
  obtain ⟨d', names, member', unfolds⟩ := unfoldable name (Table.mem_keys_of_mem member)
  rw [← Table.find?_eq_some_iff distinct] at member member'
  cases member.symm.trans member'
  exact ⟨names, unfolds⟩

/-! ## The walk -/

/-- Of every listed type that is not on the path all references are listed, and none of them is on
the path. -/
def CompleteOff (types : Table TypeDef) (path listed : List String) : Prop :=
  ∀ name ∈ listed, name ∉ path → ∀ other, Refers types name other → other ∈ listed ∧ other ∉ path

theorem CompleteOff.mem_of_reflTransGen {types : Table TypeDef} {path listed : List String}
    (complete : CompleteOff types path listed) {name other : String} (known : name ∈ listed)
    (offPath : name ∉ path) (reaches : Relation.ReflTransGen (Refers types) name other) :
    other ∈ listed := by
  have both : other ∈ listed ∧ other ∉ path := by
    induction reaches with
    | refl => exact ⟨known, offPath⟩
    | tail _ refers ih => exact complete _ ih.1 ih.2 _ refers
  exact both.1

/-- A new type goes onto the path and onto the list at once. -/
theorem CompleteOff.inward {types : Table TypeDef} {path listed : List String}
    (complete : CompleteOff types path listed) {name : String} (fresh : name ∉ listed) :
    CompleteOff types (path ++ [name]) (listed ++ [name]) := by
  intro old member offPath other refers
  rw [List.mem_append, not_or, List.mem_singleton] at offPath
  have known : old ∈ listed := by
    rcases List.mem_append.mp member with known | new
    · exact known
    · exact absurd (List.mem_singleton.mp new) offPath.2
  obtain ⟨listedOther, off⟩ := complete old known offPath.1 other refers
  refine ⟨List.mem_append_left _ listedOther, ?_⟩
  rw [List.mem_append, not_or, List.mem_singleton]
  refine ⟨off, ?_⟩
  rintro rfl
  exact fresh listedOther

theorem CompleteOff.expanded {types : Table TypeDef} {path listed more : List String}
    (complete : CompleteOff types path listed) (expanded : Expanded types path listed more) :
    CompleteOff types path more := by
  intro name member offPath other refers
  by_cases early : name ∈ listed
  · obtain ⟨known, off⟩ := complete name early offPath other refers
    exact ⟨expanded.subset known, off⟩
  · exact expanded.closed name member early other refers

/-- A walk appends what is new in the unfolding of the fields. -/
theorem collect?_eq_appendNew {types : Table TypeDef} (distinct : (Table.keys types).Nodup)
    {path listed more names : List String} {fields : List FieldDecl}
    (run : collect? types path listed fields = .ok more) (unfolds : Unfolds types fields names)
    (complete : CompleteOff types path listed) : more = appendNew listed names := by
  fun_induction collect? types path listed fields generalizing more names with
  | case1 path listed =>
    cases run
    cases unfolds
    rw [appendNew_nil]
  | case2 path listed f rest primitive ih =>
    cases unfolds with
    | primitive _ after => exact ih run after complete
    | composite composite _ _ _ => cases primitive.symm.trans composite
  | case3 path listed f rest composite onPath => cases run
  | case4 path listed f rest composite offPath known ih =>
    cases unfolds with
    | primitive primitive _ => exact absurd primitive composite
    | @composite _ _ d below after _ declared inner outer =>
      -- The type is listed and off the path, so that all it unfolds to is listed too.
      have knownName : f.typeName ∈ listed := by simpa using known
      have offPath' : f.typeName ∉ path := by simpa using offPath
      have skipped : f.typeName :: below ⊆ listed := by
        refine List.cons_subset.mpr ⟨knownName, ?_⟩
        intro other member
        rw [inner.mem_iff_transGen distinct declared] at member
        exact complete.mem_of_reflTransGen knownName offPath' member.to_reflTransGen
      rw [ih run outer complete, ← List.cons_append, appendNew_append,
        appendNew_of_subset skipped]
  | case5 path listed f rest composite offPath unknown missing => cases run
  | case6 path listed f rest composite offPath unknown d found e fault ih => cases run
  | case7 path listed f rest composite offPath unknown d found middle walk ih ih' =>
    cases unfolds with
    | primitive primitive _ => exact absurd primitive composite
    | @composite _ _ d' below after composite' declared inner outer =>
      rw [← Table.find?_eq_some_iff distinct, found] at declared
      cases declared
      have fresh : f.typeName ∉ listed := by simpa using unknown
      have middle_eq := ih walk inner (complete.inward fresh)
      -- The step inward as part of the walk on the outer path.
      have alone : collect? types path listed [f] = .ok middle := by
        rw [collect?, if_neg composite, dif_neg offPath, if_neg unknown]
        split
        · rename_i missing
          cases found.symm.trans missing
        · rename_i again
          cases found.symm.trans again
          simp only [walk, collect?]
      have complete' := complete.expanded (expanded_of_collect? distinct alone).1
      rw [ih' run outer complete', middle_eq, ← appendNew_singleton fresh, ← appendNew_append,
        ← appendNew_append]
      rfl

theorem of?_eq_eraseDups {types : Table TypeDef} (distinct : (Table.keys types).Nodup)
    {name : String} {d : TypeDef} (member : (name, d) ∈ types) {listed names : List String}
    (run : of? types name = .ok listed) (unfolds : Unfolds types d names) :
    listed = names.eraseDups := by
  obtain ⟨d', found, walk⟩ := of?_eq_ok_iff.mp run
  rw [Table.find?_eq_some_iff distinct] at found
  rw [← Table.find?_eq_some_iff distinct] at member found
  cases member.symm.trans found
  have complete : CompleteOff types [name] [] := fun _ known => absurd known List.not_mem_nil
  rw [collect?_eq_appendNew distinct walk unfolds complete, nil_appendNew]

/-! ## Full texts -/

/-- The own texts of these types, one after the other. -/
def textOf (declarations : List (String × TypeDef)) : String :=
  String.join (declarations.map fun pair => TypeDef.text pair.1 pair.2)

theorem exists_texts_eq {types : Table TypeDef} {names : List String}
    (declared : ∀ name ∈ names, name ∈ Table.keys types) :
    ∃ declarations, Table.keys declarations = names ∧ (∀ pair ∈ declarations, pair ∈ types) ∧
      texts types names = declarations.map fun pair => TypeDef.text pair.1 pair.2 := by
  induction names with
  | nil => exact ⟨[], rfl, fun pair member => absurd member List.not_mem_nil, rfl⟩
  | cons name rest ih =>
    rw [List.forall_mem_cons] at declared
    obtain ⟨declarations, keys, members, rest_eq⟩ := ih declared.2
    obtain ⟨d, found⟩ :=
      Option.isSome_iff_exists.mp ((Table.find?_isSome_iff name types).mpr declared.1)
    refine ⟨(name, d) :: declarations, ?_, ?_, ?_⟩
    · rw [Table.keys, List.map_cons, ← keys, Table.keys]
    · rw [List.forall_mem_cons]
      exact ⟨Table.mem_of_find? found, members⟩
    · rw [texts, List.filterMap_cons, found, List.map_cons, ← rest_eq, texts]
      rfl

end Dependencies

namespace Schema

open Dependencies

theorem Accepted.exists_of?_eq_ok {s : Schema} (accepted : s.Accepted) {name : String}
    {d : TypeDef} (member : (name, d) ∈ s.types) : ∃ listed, of? s.types name = .ok listed :=
  Dependencies.exists_of?_eq_ok accepted.closed accepted.acyclic (Table.mem_keys_of_mem member)

/-- The full text is the own text, followed by those of the types of the unfolding, each once. -/
theorem Accepted.exists_typeText?_eq {s : Schema} (accepted : s.Accepted) {name : String}
    {d : TypeDef} (declared : s.typeDef? name = some d) {names : List String}
    (unfolds : Unfolds s.types d names) :
    ∃ others, Table.keys others = names.eraseDups ∧ (∀ pair ∈ others, pair ∈ s.types) ∧
      s.typeText? name = .ok (textOf ((TypeName.canonical name, d) :: others)) := by
  have member := accepted.typeDef?_eq_some_iff.mp declared
  obtain ⟨listed, run⟩ := accepted.exists_of?_eq_ok member
  have once := of?_eq_eraseDups accepted.distinct member run unfolds
  have known : ∀ other ∈ names.eraseDups, other ∈ Table.keys s.types := by
    intro other listedOther
    rw [List.mem_eraseDups, unfolds.mem_iff_transGen accepted.distinct member] at listedOther
    exact (mem_of_of?_of_transGen accepted.distinct run listedOther).2.2
  obtain ⟨others, keys, members, others_eq⟩ := exists_texts_eq known
  refine ⟨others, keys, members, ?_⟩
  have own : Table.find? (TypeName.canonical name) s.types = some d := declared
  rw [typeText?, resolve?, declared]
  dsimp only
  rw [Dependencies.typeText?, run, once]
  dsimp only
  rw [texts, List.filterMap_cons, own, textOf, List.map_cons, ← others_eq, texts]
  rfl

/-- The full text of a declared type is its own text followed by the own texts of the types that
the unfolding of its fields names, each at its first occurrence only. These are the types that it
refers to, directly or through others, and never itself. -/
theorem typeText?_eq_unfolding {s : Schema} (accepted : s.Accepted) {name : String} {d : TypeDef}
    (declared : s.typeDef? name = some d) :
    (∃ names, Unfolds s.types d names) ∧ ∀ names, Unfolds s.types d names →
      (∃ others, Table.keys others = names.eraseDups ∧ (∀ pair ∈ others, pair ∈ s.types) ∧
        s.typeText? name = .ok (textOf ((TypeName.canonical name, d) :: others)) ∧
        s.typeHash? name =
          .ok (Selector.ofName (textOf ((TypeName.canonical name, d) :: others)))) ∧
      names.eraseDups.Nodup ∧
      (∀ other, other ∈ names.eraseDups ↔
        Relation.TransGen (Refers s.types) (TypeName.canonical name) other) ∧
      TypeName.canonical name ∉ names.eraseDups := by
  have member := accepted.typeDef?_eq_some_iff.mp declared
  refine ⟨exists_unfolds accepted.distinct accepted.closed accepted.acyclic member, ?_⟩
  intro names unfolds
  have reached : ∀ other, other ∈ names.eraseDups ↔
      Relation.TransGen (Refers s.types) (TypeName.canonical name) other := by
    intro other
    rw [List.mem_eraseDups, unfolds.mem_iff_transGen accepted.distinct member]
  obtain ⟨others, keys, members, text⟩ := accepted.exists_typeText?_eq declared unfolds
  refine ⟨⟨others, keys, members, text, ?_⟩, nodup_eraseDups names, reached, ?_⟩
  · rw [typeHash?, text]
    rfl
  · rw [reached]
    exact accepted.acyclic _

def paymentFields : TypeDef :=
  [⟨"from", "Party"⟩, ⟨"to", "Party"⟩, ⟨"sum", "Money"⟩, ⟨"notes", "felt*"⟩]

def partyFields : TypeDef :=
  [⟨"id", "felt"⟩, ⟨"limit", "Money"⟩]

def moneyFields : TypeDef :=
  [⟨"units", "felt"⟩]

/-- A payment refers to two parties and to money, and a party refers to money. -/
def paymentTypes : List (String × TypeDef) :=
  [("Payment", paymentFields), ("Party", partyFields), ("Money", moneyFields),
    ("StarknetDomain", [⟨"name", "felt"⟩])]

def payment : Schema :=
  ⟨Table.ofList (canonicalTypes paymentTypes), "Payment", ⟨"5", "1", "1"⟩⟩

/-- Declarations whose references go down in some rank, and whose domain type has the name only. -/
theorem wellFormed_of_rank {declared : List (String × TypeDef)} {primary : String}
    {domain : Domain} {e : Felt} (rank : String → Nat)
    (composite : ∀ name ∈ Table.keys (canonicalTypes declared),
      TypeName.isPrimitive name = false)
    (once : (Table.keys (canonicalTypes declared)).Nodup)
    (primary_declared : TypeName.canonical primary ∈ Table.keys (canonicalTypes declared))
    (domain_declared : TypeName.domain ∈ Table.keys (canonicalTypes declared))
    (domain_fields : ∀ pair ∈ canonicalTypes declared, pair.1 = TypeName.domain →
      pair.2 = [⟨"name", TypeName.felt⟩])
    (named : (Scalar.infer domain.name).toFelt? = .ok e)
    (references : ∀ pair ∈ canonicalTypes declared, ∀ f ∈ pair.2,
      TypeName.isPrimitive f.typeName = false →
        f.typeName ∈ Table.keys (canonicalTypes declared) ∧ rank f.typeName < rank pair.1) :
    WellFormed declared primary domain where
  composite := fun name member => isPrimitive_eq_false_iff.mp (composite name member)
  declared_once := once
  primary_declared := primary_declared
  domain_declared := domain_declared
  domain_fields := by
    intro fields member f field
    have fields_eq : fields = [⟨"name", TypeName.felt⟩] := domain_fields _ member rfl
    rw [fields_eq, List.mem_singleton] at field
    rw [field]
    exact ⟨rfl, domain.name, e, Or.inl ⟨rfl, rfl⟩, named⟩
  references_declared := by
    rintro name _ ⟨d, f, member, field, rfl, composite⟩
    exact (references (name, d) member f field composite).1
  acyclic := by
    apply acyclic_of_rank rank
    rintro name _ ⟨d, f, member, field, rfl, composite⟩
    exact (references (name, d) member f field composite).2

theorem exists_toFelt?_five : ∃ e, (Scalar.infer "5").toFelt? = .ok e := by
  have number : ((Scalar.infer "5").toFelt?.toOption).isSome = true := by decide +kernel
  obtain ⟨e, five⟩ := Option.isSome_iff_exists.mp number
  exact ⟨e, Outcome.eq_ok_of_toOption five⟩

/-- How many references lead down from a type of a payment, or of a ledger of payments. -/
def paymentRank (name : String) : Nat :=
  if name = "Ledger" then 3 else if name = "Payment" then 2 else if name = "Party" then 1 else 0

theorem accepted_payment : payment.Accepted := by
  obtain ⟨e, named⟩ := exists_toFelt?_five
  have wf : WellFormed paymentTypes "Payment" ⟨"5", "1", "1"⟩ :=
    wellFormed_of_rank paymentRank (by decide) (by decide) (by decide) (by decide) (by decide)
      named (by decide)
  exact ⟨paymentTypes, "Payment", _, ofTypes?_of_wellFormed wf⟩

def paymentUnfolding : List String :=
  ["Party", "Money", "Party", "Money", "Money"]

theorem eraseDups_paymentUnfolding : paymentUnfolding.eraseDups = ["Party", "Money"] := by
  decide

theorem unfolds_payment {types : List (String × TypeDef)} (party : ("Party", partyFields) ∈ types)
    (money : ("Money", moneyFields) ∈ types) :
    Unfolds types paymentFields paymentUnfolding := by
  have inMoney : Unfolds types moneyFields [] := .primitive rfl .nil
  have inParty : Unfolds types partyFields ["Money"] :=
    .primitive rfl (.composite rfl money inMoney .nil)
  exact .composite rfl party inParty
    (.composite rfl party inParty (.composite rfl money inMoney (.primitive rfl .nil)))

/-- Money is unfolded three times, twice inside a party, and written once. -/
theorem typeText?_eq_unfolding_payment :
    payment.Accepted ∧ payment.typeDef? "Payment" = some paymentFields ∧
      payment.typeText? "Payment" = .ok (textOf
        [("Payment", paymentFields), ("Party", partyFields), ("Money", moneyFields)]) ∧
      textOf [("Payment", paymentFields), ("Party", partyFields), ("Money", moneyFields)] =
        "Payment(from:Party,to:Party,sum:Money,notes:felt*)" ++
          "Party(id:felt,limit:Money)Money(units:felt)" := by
  have declared : payment.typeDef? "Payment" = some paymentFields := by decide
  obtain ⟨-, texts⟩ := typeText?_eq_unfolding accepted_payment declared
  obtain ⟨⟨others, keys, members, text, -⟩, -⟩ :=
    texts _ (unfolds_payment (by decide) (by decide))
  rw [eraseDups_paymentUnfolding] at keys
  have others_eq : others = [("Party", partyFields), ("Money", moneyFields)] :=
    Table.eq_of_keys_eq accepted_payment.distinct members (by decide) keys
  rw [others_eq] at text
  exact ⟨accepted_payment, declared, text, by decide⟩

end Schema
end StarkSigning

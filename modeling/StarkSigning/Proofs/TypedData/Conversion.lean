import StarkSigning.Proofs.Json.Integers
import StarkSigning.Proofs.Outcome
import StarkSigning.Proofs.Table
import StarkSigning.TypedData.Value

/-!
# StarkSigning.Proofs.TypedData.Conversion

Which JSON values are values of a message, and which value each of them is. A null has no encoding,
and neither has a number that is no integer of 64 bits without a sign. One of these anywhere inside
a value, at any depth and in any branch, has the value refused. Every other value is converted, and
the result has its shape: as many items in the same order, the same keys with the values that stood
under them, and scalars where there were scalars.

* `Json.parts_induction`: induction on a value through the values directly inside it.
* `Json.Within`, `Json.Unencodable`: what stands inside a value, and what has no encoding.
* `TypedValue.Mirrors`: a value of a message has the shape of a JSON value.
* `TypedValue.exists_ofJson?_eq_error_iff`, `TypedValue.ofJson?_eq_ok_iff`: which values are
  refused, and what the others become.
-/

namespace StarkSigning

/-! ## Parts of a value -/

namespace Json

/-- The values directly inside a value. -/
def parts : Json → List Json
  | .array items => items
  | .object members => members.map Prod.snd
  | _ => []

theorem mem_parts_object {members : List (String × Json)} {member : String × Json}
    (listed : member ∈ members) : member.2 ∈ (Json.object members).parts :=
  List.mem_map_of_mem listed

theorem exists_mem_parts_object_iff {members : List (String × Json)} {P : Json → Prop} :
    (∃ part ∈ (Json.object members).parts, P part) ↔ ∃ member ∈ members, P member.2 := by
  constructor
  · rintro ⟨part, inside, h⟩
    obtain ⟨member, listed, rfl⟩ := List.mem_map.mp inside
    exact ⟨member, listed, h⟩
  · rintro ⟨member, listed, h⟩
    exact ⟨member.2, mem_parts_object listed, h⟩

theorem sizeOf_lt_of_mem_parts {part j : Json} (member : part ∈ j.parts) :
    sizeOf part < sizeOf j := by
  cases j with
  | array items =>
    have below : sizeOf part < sizeOf items := List.sizeOf_lt_of_mem member
    rw [array.sizeOf_spec]
    omega
  | object members =>
    obtain ⟨⟨key, value⟩, listed, rfl⟩ := List.mem_map.mp member
    have below := List.sizeOf_lt_of_mem listed
    rw [Prod.mk.sizeOf_spec] at below
    rw [object.sizeOf_spec]
    show sizeOf value < _
    omega
  | null | bool b | number x | string s => cases member

/-- To prove a property of a value it may be assumed of its parts. -/
theorem parts_induction {motive : Json → Prop}
    (step : ∀ j, (∀ part ∈ j.parts, motive part) → motive j) (j : Json) : motive j := by
  apply step
  intro part member
  exact parts_induction step part
termination_by sizeOf j
decreasing_by exact sizeOf_lt_of_mem_parts member

/-- The value stands inside another one, at any depth: it is that one, or inside a part of it. -/
inductive Within (inner : Json) : Json → Prop
  | here : Within inner inner
  | inside {part j : Json} : part ∈ j.parts → Within inner part → Within inner j

/-- The value is a null, or a number that is no integer of 64 bits without a sign. -/
def Unencodable : Json → Prop
  | .null => True
  | .number x => ∀ n, ¬ x.IsUnsigned n
  | _ => False

/-- At some depth something has no encoding. -/
def HasUnencodable (j : Json) : Prop :=
  ∃ inner, Within inner j ∧ inner.Unencodable

theorem hasUnencodable_iff {j : Json} :
    j.HasUnencodable ↔ j.Unencodable ∨ ∃ part ∈ j.parts, part.HasUnencodable := by
  constructor
  · rintro ⟨inner, within, unencodable⟩
    cases within with
    | here => exact Or.inl unencodable
    | inside member below => exact Or.inr ⟨_, member, inner, below, unencodable⟩
  · rintro (unencodable | ⟨part, member, inner, below, unencodable⟩)
    · exact ⟨j, .here, unencodable⟩
    · exact ⟨inner, .inside member below, unencodable⟩

end Json

/-! ## Conversion -/

namespace TypedValue

theorem ofItems?_eq_mapM (items : List Json) : ofItems? items = items.mapM ofJson? := by
  apply Outcome.eq_mapM
  case nil => rfl
  case cons =>
    intro j rest
    rw [ofItems?]
    cases ofJson? j with
    | error fault => rfl
    | ok v => rfl

theorem ofMembers?_eq_mapM (members : List (String × Json)) :
    ofMembers? members = members.mapM (Outcome.underKey ofJson?) := by
  apply Outcome.eq_mapM_underKey
  case nil => rfl
  case cons =>
    intro key j rest
    rw [ofMembers?]
    cases ofJson? j with
    | error fault => rfl
    | ok v => rfl

theorem ofJson?_array (items : List Json) :
    ofJson? (.array items) = (items.mapM ofJson?).map array := by
  rw [ofJson?, ofItems?_eq_mapM]

theorem ofJson?_object (members : List (String × Json)) :
    ofJson? (.object members) = (members.mapM (Outcome.underKey ofJson?)).map record := by
  rw [ofJson?, ofMembers?_eq_mapM]

/-- A number is an integer that is converted to an element, or is refused. -/
theorem ofJson?_number_cases (x : Json.Number) :
    (∃ e : Felt, x.IsUnsigned e.val ∧ ofJson? (.number x) = .ok (scalar (.felt e))) ∨
      (∀ n, ¬ x.IsUnsigned n) ∧ ofJson? (.number x) = .error (.numberNotUnsigned x) := by
  cases x with
  | natural u =>
    exact Or.inl ⟨Felt.ofUInt64 u, Json.Number.isUnsigned_iff.mpr ⟨u, rfl, rfl⟩, rfl⟩
  | negative i | real f =>
    refine Or.inr ⟨fun n unsigned => ?_, rfl⟩
    obtain ⟨u, same, -⟩ := Json.Number.isUnsigned_iff.mp unsigned
    cases same

theorem exists_ofJson?_eq_error_iff (j : Json) :
    (∃ fault, ofJson? j = .error fault) ↔ j.HasUnencodable := by
  induction j using Json.parts_induction with
  | step j ih =>
    rw [Json.hasUnencodable_iff]
    cases j with
    | null => simp [ofJson?, Json.Unencodable]
    | bool b => simp [ofJson?, Json.Unencodable, Json.parts]
    | number x =>
      rcases ofJson?_number_cases x with ⟨e, unsigned, converted⟩ | ⟨other, refused⟩
      · have unencodable : ¬ (Json.number x).Unencodable := fun other => other e.val unsigned
        simp [converted, unencodable, Json.parts]
      · have unencodable : (Json.number x).Unencodable := other
        simp [refused, unencodable]
    | string s => simp [ofJson?, Json.Unencodable, Json.parts]
    | array items =>
      simp only [ofJson?_array, Outcome.map_eq_error_iff, Outcome.exists_mapM_eq_error_iff,
        Json.Unencodable, false_or]
      exact exists_congr fun item => and_congr_right (ih item)
    | object members =>
      simp only [ofJson?_object, Outcome.map_eq_error_iff, Outcome.exists_mapM_eq_error_iff,
        Outcome.underKey_eq_error_iff, Json.Unencodable, false_or,
        Json.exists_mem_parts_object_iff]
      exact exists_congr fun member =>
        and_congr_right fun listed => ih member.2 (Json.mem_parts_object listed)

/-! ## The shape of the result -/

/-- The value of a message has the shape of the JSON value: items in their order, members under
their keys, and for each scalar the element or the inferred scalar that it stands for. -/
inductive Mirrors : Json → TypedValue → Prop
  | bool {b : Bool} {e : Felt} : e.val = b.toNat → Mirrors (.bool b) (.scalar (.felt e))
  | number {x : Json.Number} {e : Felt} :
      x.IsUnsigned e.val → Mirrors (.number x) (.scalar (.felt e))
  | string (s : String) : Mirrors (.string s) (.infer s)
  | array {items : List Json} {values : List TypedValue} :
      items.length = values.length →
      (∀ i (h : i < items.length) (h' : i < values.length), Mirrors items[i] values[i]) →
      Mirrors (.array items) (.array values)
  | object {members : List (String × Json)} {fields : List (String × TypedValue)} :
      Table.keys members = Table.keys fields →
      (∀ i (h : i < members.length) (h' : i < fields.length), Mirrors members[i].2 fields[i].2) →
      Mirrors (.object members) (.record fields)

theorem mirrors_bool_iff {b : Bool} {v : TypedValue} :
    Mirrors (.bool b) v ↔ v = scalar (.felt (if b then Felt.one else Felt.zero)) := by
  have value : (if b then Felt.one else Felt.zero).val = b.toNat := by
    cases b with
    | false => rfl
    | true => rfl
  constructor
  · intro mirrors
    cases mirrors with
    | bool same => rw [Felt.ext (same.trans value.symm)]
  · rintro rfl
    exact .bool value

theorem mirrors_number_iff {x : Json.Number} {v : TypedValue} :
    Mirrors (.number x) v ↔ ∃ e : Felt, x.IsUnsigned e.val ∧ v = scalar (.felt e) := by
  constructor
  · intro mirrors
    cases mirrors with
    | number unsigned => exact ⟨_, unsigned, rfl⟩
  · rintro ⟨e, unsigned, rfl⟩
    exact .number unsigned

theorem mirrors_string_iff {s : String} {v : TypedValue} :
    Mirrors (.string s) v ↔ v = infer s := by
  constructor
  · intro mirrors
    cases mirrors with
    | string => rfl
  · rintro rfl
    exact .string s

theorem mirrors_array_iff {items : List Json} {v : TypedValue} :
    Mirrors (.array items) v ↔ ∃ values, (items.length = values.length ∧
      ∀ i (h : i < items.length) (h' : i < values.length), Mirrors items[i] values[i]) ∧
      v = array values := by
  constructor
  · intro mirrors
    cases mirrors with
    | array length each => exact ⟨_, ⟨length, each⟩, rfl⟩
  · rintro ⟨values, ⟨length, each⟩, rfl⟩
    exact .array length each

/-- The keys and the values, member by member. -/
theorem mirrors_object_iff {members : List (String × Json)} {v : TypedValue} :
    Mirrors (.object members) v ↔ ∃ fields, (members.length = fields.length ∧
      ∀ i (h : i < members.length) (h' : i < fields.length),
        fields[i].1 = members[i].1 ∧ Mirrors members[i].2 fields[i].2) ∧
      v = record fields := by
  constructor
  · intro mirrors
    cases mirrors with
    | object keys each =>
      obtain ⟨length, names⟩ := Table.keys_eq_iff.mp keys
      exact ⟨_, ⟨length, fun i h h' => ⟨(names i h h').symm, each i h h'⟩⟩, rfl⟩
  · rintro ⟨fields, ⟨length, each⟩, rfl⟩
    have keys : Table.keys members = Table.keys fields :=
      Table.keys_eq_iff.mpr ⟨length, fun i h h' => (each i h h').1.symm⟩
    exact .object keys fun i h h' => (each i h h').2

theorem ofJson?_eq_ok_iff {j : Json} {v : TypedValue} : ofJson? j = .ok v ↔ Mirrors j v := by
  induction j using Json.parts_induction generalizing v with
  | step j ih =>
    cases j with
    | null =>
      rw [ofJson?]
      exact iff_of_false (by intro h; cases h) (by intro mirrors; cases mirrors)
    | bool b => rw [ofJson?, mirrors_bool_iff, Except.ok.injEq, eq_comm]
    | number x =>
      rw [mirrors_number_iff]
      rcases ofJson?_number_cases x with ⟨e, unsigned, converted⟩ | ⟨other, refused⟩
      · rw [converted, Except.ok.injEq]
        constructor
        · rintro rfl
          exact ⟨e, unsigned, rfl⟩
        · rintro ⟨e', unsigned', rfl⟩
          rw [Felt.ext (unsigned.unique unsigned')]
      · simp [refused, other]
    | string s => rw [ofJson?, mirrors_string_iff, Except.ok.injEq, eq_comm]
    | array items =>
      have each (i : Nat) (h : i < items.length) {w : TypedValue} :
          ofJson? items[i] = .ok w ↔ Mirrors items[i] w :=
        ih _ (List.getElem_mem h)
      rw [ofJson?_array, Outcome.map_eq_ok_iff, mirrors_array_iff]
      simp only [Outcome.mapM_eq_ok_iff_getElem, each]
    | object members =>
      have each (i : Nat) (h : i < members.length) {w : TypedValue} :
          ofJson? members[i].2 = .ok w ↔ Mirrors members[i].2 w :=
        ih _ (Json.mem_parts_object (List.getElem_mem h))
      rw [ofJson?_object, Outcome.map_eq_ok_iff, mirrors_object_iff]
      simp only [Outcome.mapM_eq_ok_iff_getElem, Outcome.underKey_eq_ok_iff, each]

/-- A value with something in it, at any depth, that has no encoding is refused, and no other: any
other is converted to the one value of a message that has its shape. -/
theorem ofJson?_keeps_shape_or_refuses (j : Json) :
    ((∃ e, (ofJson? j).mapError Error.schema = .error e ∧ e.kind = .typeResolution) ↔
      ∃ inner, Json.Within inner j ∧ inner.Unencodable) ∧
    ((¬ ∃ inner, Json.Within inner j ∧ inner.Unencodable) →
      ∃ v, (ofJson? j).mapError Error.schema = .ok v ∧ Mirrors j v) ∧
    ∀ v, (ofJson? j).mapError Error.schema = .ok v ↔ Mirrors j v := by
  have refused := exists_ofJson?_eq_error_iff j
  refine ⟨?_, fun clean => ?_, fun v => ?_⟩
  · refine Iff.trans ?_ refused
    constructor
    · rintro ⟨e, failed, -⟩
      obtain ⟨fault, failed, -⟩ := Outcome.mapError_eq_error_iff.mp failed
      exact ⟨fault, failed⟩
    · rintro ⟨fault, failed⟩
      exact ⟨.schema fault, Outcome.mapError_eq_error_iff.mpr ⟨fault, failed, rfl⟩, rfl⟩
  · cases converted : ofJson? j with
    | error fault => exact absurd (refused.mp ⟨fault, converted⟩) clean
    | ok v => exact ⟨v, Outcome.mapError_ok _ v, ofJson?_eq_ok_iff.mp converted⟩
  · rw [Outcome.mapError_eq_ok_iff]
    exact ofJson?_eq_ok_iff

/-- A list with a null inside its last item, and the same list with a truth value there. -/
theorem ofJson?_keeps_shape_or_refuses_last_item :
    let list (last : Json) : Json :=
      .array [.number (.natural 7), .string "0x2", .object [("paid", .bool true), ("tip", last)]]
    (∃ inner, Json.Within inner (list .null) ∧ inner.Unencodable) ∧
      (∃ e, (ofJson? (list .null)).mapError Error.schema = .error e ∧ e.kind = .typeResolution) ∧
      (¬ ∃ inner, Json.Within inner (list (.bool false)) ∧ inner.Unencodable) ∧
      ∃ seven paid tip : Felt, seven.val = 7 ∧ paid.val = 1 ∧ tip.val = 0 ∧
        Mirrors (list (.bool false)) (.array [.scalar (.felt seven), .infer "0x2",
          .record [("paid", .scalar (.felt paid)), ("tip", .scalar (.felt tip))]]) := by
  intro list
  obtain ⟨refuses, -, -⟩ := ofJson?_keeps_shape_or_refuses (list .null)
  obtain ⟨clean, -, converts⟩ := ofJson?_keeps_shape_or_refuses (list (.bool false))
  have tip : Json.Within .null (.object [("paid", .bool true), ("tip", .null)]) :=
    .inside (by simp [Json.parts]) .here
  have unencodable : ∃ inner, Json.Within inner (list .null) ∧ inner.Unencodable :=
    ⟨.null, .inside (by simp [list, Json.parts]) tip, trivial⟩
  have converted : (ofJson? (list (.bool false))).mapError Error.schema = .ok _ := rfl
  refine ⟨unencodable, refuses.mpr unencodable, ?_, ?_⟩
  · rw [← clean, converted]
    rintro ⟨e, h, -⟩
    cases h
  · exact ⟨Felt.ofUInt64 7, Felt.one, Felt.zero, rfl, rfl, rfl, (converts _).mp converted⟩

end TypedValue
end StarkSigning

import StarkSigning.TypedData.TypeDef

/-!
# StarkSigning.TypedData.Dependencies

The types that a declared type refers to, directly or through others, in the order of their first
reference, depth first; and the full text of a type, its own text followed by theirs.

The walk keeps the path of types under expansion. A reference to a type on the path is a cycle, a
reference to a type already listed adds nothing. Each step inward puts one more declared type on
the path, so the walk ends on cyclic declarations too.

* `unexpanded_append_lt`: a step inward leaves fewer types to expand.
-/

namespace StarkSigning

namespace Dependencies

/-- How many declared types are not on the path. -/
def unexpanded (types : Table TypeDef) (path : List String) : Nat :=
  ((Table.keys types).filter fun name => !path.contains name).length

theorem unexpanded_append_lt {types : Table TypeDef} {path : List String} {name : String}
    (declared : (Table.find? name types).isSome) (fresh : path.contains name = false) :
    unexpanded types (path ++ [name]) < unexpanded types path := by
  have member := (Table.find?_isSome_iff name types).mp declared
  have split : (Table.keys types).filter (fun n => !(path ++ [name]).contains n) =
      ((Table.keys types).filter fun n => !path.contains n).filter (· != name) := by
    rw [List.filter_filter]
    congr 1
    funext n
    cases hn : path.contains n <;> by_cases same : n = name <;> simp_all
  rw [unexpanded, split]
  apply List.length_filter_lt_length_iff_exists.mpr
  exact ⟨name, by simp_all, by simp⟩

-- The names of the conditions are used where the walk is shown to end.
set_option linter.unusedVariables false in
/-- Extends the listed types by those that the fields refer to, below the types on the path. -/
def collect? (types : Table TypeDef) (path listed : List String) :
    List FieldDecl → Except SchemaFault (List String)
  | [] => .ok listed
  | f :: rest =>
    if TypeName.isPrimitive f.typeName then collect? types path listed rest
    else if onPath : path.contains f.typeName then .error (.cycle path f.typeName)
    else if listed.contains f.typeName then collect? types path listed rest
    else
      match found : Table.find? f.typeName types with
      | none => .error (.undeclared f.typeName)
      | some d =>
        match collect? types (path ++ [f.typeName]) (listed ++ [f.typeName]) d with
        | .error e => .error e
        | .ok more => collect? types path more rest
termination_by fields => (unexpanded types path, fields.length)
decreasing_by
  · exact Prod.Lex.right _ (Nat.lt_succ_self _)
  · exact Prod.Lex.right _ (Nat.lt_succ_self _)
  · exact Prod.Lex.left _ _ (unexpanded_append_lt (by rw [found]; rfl) (by simpa using onPath))
  · exact Prod.Lex.right _ (Nat.lt_succ_self _)

/-- The types that a declared type refers to, without itself. -/
def of? (types : Table TypeDef) (name : String) : Except SchemaFault (List String) :=
  match Table.find? name types with
  | none => .error (.undeclared name)
  | some d => collect? types [name] [] d

/-- The own texts of the declared types among the names. -/
def texts (types : Table TypeDef) (names : List String) : List String :=
  names.filterMap fun name => (Table.find? name types).map (TypeDef.text name)

/-- The full text of a declared type. -/
def typeText? (types : Table TypeDef) (name : String) : Except SchemaFault String :=
  match of? types name with
  | .error e => .error e
  | .ok names => .ok (String.join (texts types (name :: names)))

end Dependencies
end StarkSigning

/-!
# StarkSigning.Table

Tables keyed by text, as lists of pairs. `insert` keeps the keys in increasing order of their code
points, which is also the order of their UTF-8 bytes, and lets a later value of a key replace the
earlier one. `find?` reads the first pair with a key, in whatever order the pairs stand.

* `find?_insert_self`, `find?_insert_ne`: an insertion is seen at its key and nowhere else.
* `find?_isSome_iff`: a table finds exactly its keys.
-/

namespace StarkSigning

abbrev Table (α : Type) := List (String × α)

namespace Table

variable {α : Type}

def insert (key : String) (value : α) : Table α → Table α
  | [] => [(key, value)]
  | (k, v) :: rest =>
    if k = key then (key, value) :: rest
    else if key < k then (key, value) :: (k, v) :: rest
    else (k, v) :: insert key value rest

def find? (key : String) : Table α → Option α
  | [] => none
  | (k, v) :: rest => if k = key then some v else find? key rest

def keys (table : Table α) : List String :=
  table.map Prod.fst

/-- The sorted table of a list of pairs; later pairs win. -/
def ofList (pairs : List (String × α)) : Table α :=
  pairs.foldl (fun table pair => insert pair.1 pair.2 table) []

theorem find?_insert_self (key : String) (value : α) (table : Table α) :
    find? key (insert key value table) = some value := by
  induction table with
  | nil => simp [insert, find?]
  | cons pair rest ih =>
    obtain ⟨k, v⟩ := pair
    by_cases same : k = key
    · simp [insert, find?, same]
    · by_cases below : key < k
      · simp [insert, find?, same, below]
      · simp [insert, find?, same, below, ih]

theorem find?_insert_ne {key other : String} (h : key ≠ other) (value : α) (table : Table α) :
    find? other (insert key value table) = find? other table := by
  induction table with
  | nil => simp [insert, find?, h]
  | cons pair rest ih =>
    obtain ⟨k, v⟩ := pair
    by_cases same : k = key
    · subst same
      simp [insert, find?, h]
    · by_cases below : key < k
      · simp [insert, find?, same, below, h]
      · simp [insert, find?, same, below, ih]

theorem find?_isSome_iff (key : String) (table : Table α) :
    (find? key table).isSome ↔ key ∈ keys table := by
  induction table with
  | nil => simp [find?, keys]
  | cons pair rest ih =>
    obtain ⟨k, v⟩ := pair
    by_cases same : k = key
    · simp [find?, keys, same]
    · simp only [find?, same, if_false, ih, keys, List.map_cons, List.mem_cons]
      constructor
      · exact Or.inr
      · rintro (equal | member)
        · exact absurd equal.symm same
        · exact member

end Table
end StarkSigning

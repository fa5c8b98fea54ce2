import StarkSigning.Table

/-!
# StarkSigning.Proofs.Table

Tables against the lists of pairs that they are. Where every key stands once, `find?` and
membership are one, and filling a table from a list only changes the order of its pairs.

* `find?_eq_some_iff`: what a table finds are its pairs.
* `keys_eq_iff`: tables with the same keys in the same order, pair by pair.
* `ofList_perm`: filling a table keeps the pairs, in another order.
* `ofList_eq_of_perm`: the order in which the pairs are filled in does not matter.
-/

namespace StarkSigning
namespace Table

variable {α : Type}

theorem mem_of_find? {key : String} {value : α} {table : Table α}
    (found : find? key table = some value) : (key, value) ∈ table := by
  induction table with
  | nil => cases found
  | cons pair rest ih =>
    obtain ⟨k, v⟩ := pair
    rw [find?] at found
    split at found
    · rename_i same
      cases found
      rw [same]
      exact List.mem_cons_self
    · exact List.mem_cons_of_mem _ (ih found)

theorem mem_keys_of_mem {key : String} {value : α} {table : Table α}
    (member : (key, value) ∈ table) : key ∈ keys table :=
  List.mem_map_of_mem member

theorem find?_eq_some_iff {table : Table α} (distinct : (keys table).Nodup) {key : String}
    {value : α} : find? key table = some value ↔ (key, value) ∈ table := by
  constructor
  · exact mem_of_find?
  · intro member
    induction table with
    | nil => cases member
    | cons pair rest ih =>
      obtain ⟨k, v⟩ := pair
      rw [keys, List.map_cons, List.nodup_cons] at distinct
      rw [find?]
      rcases List.mem_cons.mp member with same | later
      · cases same
        rw [if_pos rfl]
      · have other : k ≠ key := by
          intro same
          exact distinct.1 (same ▸ mem_keys_of_mem later)
        rw [if_neg other]
        exact ih distinct.2 later

/-- Parts of one table with the same keys in the same order are equal. -/
theorem eq_of_keys_eq {table part part' : Table α} (distinct : (keys table).Nodup)
    (sub : part ⊆ table) (sub' : part' ⊆ table) (same : keys part = keys part') :
    part = part' := by
  induction part generalizing part' with
  | nil => exact (List.map_eq_nil_iff.mp same.symm).symm
  | cons pair rest ih =>
    cases part' with
    | nil => cases same
    | cons pair' rest' =>
      obtain ⟨key, value⟩ := pair
      obtain ⟨key', value'⟩ := pair'
      obtain ⟨rfl, sameRest⟩ := List.cons.inj same
      obtain ⟨member, subRest⟩ := List.cons_subset.mp sub
      obtain ⟨member', subRest'⟩ := List.cons_subset.mp sub'
      rw [← find?_eq_some_iff distinct] at member member'
      cases member.symm.trans member'
      rw [ih subRest subRest' sameRest]

theorem keys_eq_iff {β : Type} {table : Table α} {table' : Table β} :
    keys table = keys table' ↔ table.length = table'.length ∧
      ∀ i (h : i < table.length) (h' : i < table'.length), table[i].1 = table'[i].1 := by
  rw [keys, keys, List.ext_getElem_iff]
  simp

theorem sizeOf_lt_of_find? [SizeOf α] {key : String} {table : Table α} {value : α}
    (found : find? key table = some value) : sizeOf value < sizeOf table := by
  have below := List.sizeOf_lt_of_mem (mem_of_find? found)
  rw [Prod.mk.sizeOf_spec] at below
  omega

/-! ## Filling a table -/

theorem mem_keys_insert {key other : String} {value : α} {table : Table α} :
    other ∈ keys (insert key value table) ↔ other = key ∨ other ∈ keys table := by
  rw [← find?_isSome_iff, ← find?_isSome_iff]
  by_cases same : key = other
  · simp [same, find?_insert_self]
  · simp [find?_insert_ne same, Ne.symm same]

/-- None of these names is a key after an insertion. -/
theorem forall_not_mem_keys_insert_iff {names : List String} {key : String} {value : α}
    {table : Table α} :
    (∀ name ∈ names, name ∉ keys (insert key value table)) ↔
      key ∉ names ∧ ∀ name ∈ names, name ∉ keys table := by
  simp only [mem_keys_insert, not_or]
  constructor
  · intro fresh
    exact ⟨fun member => (fresh key member).1 rfl, fun name member => (fresh name member).2⟩
  · rintro ⟨unused, fresh⟩ name member
    refine ⟨?_, fresh name member⟩
    rintro rfl
    exact unused member

theorem insert_perm {key : String} (value : α) {table : Table α} (fresh : key ∉ keys table) :
    (insert key value table).Perm ((key, value) :: table) := by
  induction table with
  | nil => exact List.Perm.refl _
  | cons pair rest ih =>
    obtain ⟨k, v⟩ := pair
    rw [keys, List.map_cons, List.mem_cons, not_or] at fresh
    rw [insert, if_neg (Ne.symm fresh.1)]
    split
    · exact List.Perm.refl _
    · exact ((ih fresh.2).cons (k, v)).trans (List.Perm.swap _ _ _)

/-- Pairs with keys of their own fill a table that had other keys. -/
theorem foldl_insert_perm {pairs table : Table α} (distinct : (keys pairs).Nodup)
    (fresh : ∀ key ∈ keys pairs, key ∉ keys table) :
    (pairs.foldl (fun table pair => insert pair.1 pair.2 table) table).Perm (pairs ++ table) := by
  induction pairs generalizing table with
  | nil => exact List.Perm.refl _
  | cons pair rest ih =>
    obtain ⟨key, value⟩ := pair
    rw [keys, List.map_cons, List.nodup_cons] at distinct
    rw [keys, List.map_cons, List.forall_mem_cons] at fresh
    have freshRest : ∀ name ∈ keys rest, name ∉ keys (insert key value table) :=
      forall_not_mem_keys_insert_iff.mpr ⟨distinct.1, fresh.2⟩
    have filled := ih distinct.2 freshRest
    have moved := (insert_perm value fresh.1).append_left rest
    exact (filled.trans moved).trans List.perm_middle

theorem ofList_perm {pairs : List (String × α)} (distinct : (keys pairs).Nodup) :
    (ofList pairs).Perm pairs := by
  have fresh : ∀ key ∈ keys pairs, key ∉ keys ([] : Table α) := fun _ _ => List.not_mem_nil
  have filled := foldl_insert_perm distinct fresh
  rwa [List.append_nil] at filled

/-- Insertions at different keys may be made in either order, into any table: both pairs end where
their keys stand. -/
theorem insert_comm {key other : String} (h : key ≠ other) (v w : α) (table : Table α) :
    insert key v (insert other w table) = insert other w (insert key v table) := by
  induction table with
  | nil =>
    -- The smaller key stands first; there is one, the order of texts being linear.
    grind [insert]
  | cons pair rest ih =>
    obtain ⟨k, u⟩ := pair
    grind [insert]

theorem ofList_eq_of_perm {pairs pairs' : List (String × α)} (same : pairs.Perm pairs')
    (distinct : (keys pairs).Nodup) : ofList pairs = ofList pairs' := by
  apply same.foldl_eq'
  rintro ⟨key, v⟩ member ⟨other, w⟩ member' table
  by_cases sameKey : key = other
  · subst sameKey
    rw [← find?_eq_some_iff distinct] at member member'
    cases member.symm.trans member'
    rfl
  · exact insert_comm (Ne.symm sameKey) w v table

end Table
end StarkSigning

import Mathlib.Data.List.Sort
import ComponentWiring.Keyed

/-!
Tables that are filled pair by pair. `get?_ofList` says what a table knows in the end: of several
pairs for one name the last one. A table is known by what it gives for every name (`ext_get?`), and
the sorted names of a list by their members (`mem_sortedNames`).
-/

namespace ComponentWiring.Keyed

variable {β : Type}

theorem get?_foldl_insert (pairs : List (String × β)) (table : Keyed β) (key : String) :
    (pairs.foldl (fun t e => t.insert e.1 e.2) table).get? key =
      (pairs.reverse.lookup key).or (table.get? key) := by
  induction pairs generalizing table with
  | nil => rfl
  | cons e pairs ih =>
    obtain ⟨name, value⟩ := e
    rw [List.foldl_cons, ih, List.reverse_cons, List.lookup_append, get?_insert]
    cases pairs.reverse.lookup key with
    | some value => rfl
    | none =>
      by_cases h : name = key
      · simp [h]
      · have hne : (key == name) = false := by simpa using Ne.symm h
        simp [List.lookup_cons, h, hne]

theorem get?_ofList (pairs : List (String × β)) (key : String) :
    (ofList pairs).get? key = pairs.reverse.lookup key := by
  rw [ofList, get?_foldl_insert, get?_empty, Option.or_none]

theorem mem_of_get?_ofList {pairs : List (String × β)} {key : String} {value : β}
    (h : (ofList pairs).get? key = some value) : (key, value) ∈ pairs := by
  rw [get?_ofList] at h
  obtain ⟨before, after, heq, -⟩ := List.lookup_eq_some_iff.mp h
  have hmem : (key, value) ∈ pairs.reverse := heq ▸ List.mem_append_right _ List.mem_cons_self
  exact List.mem_reverse.mp hmem

theorem contains_ofList_of_mem {pairs : List (String × β)} {key : String} {value : β}
    (h : (key, value) ∈ pairs) : (ofList pairs).contains key = true := by
  rw [contains, get?_ofList]
  cases hfind : pairs.reverse.lookup key with
  | some _ => rfl
  | none =>
    have := List.lookup_eq_none_iff.mp hfind (key, value) (List.mem_reverse.mpr h)
    simp at this

/-! ## Entries -/

theorem findEntry_eq_some_iff {entries : List (String × β)} (h : Ordered entries) {key : String}
    {value : β} : findEntry key entries = some value ↔ (key, value) ∈ entries := by
  induction entries with
  | nil => simp [findEntry]
  | cons head rest ih =>
    obtain ⟨k, v⟩ := head
    obtain ⟨hhead, hrest⟩ := List.pairwise_cons.mp h
    rw [findEntry, List.mem_cons]
    by_cases hk : k = key
    · subst hk
      have hnot : (k, value) ∉ rest := fun hmem => String.lt_irrefl k (hhead _ hmem)
      simp [hnot, eq_comm]
    · simp [hk, Ne.symm hk, ih hrest]

theorem mem_entries_iff {table : Keyed β} {key : String} {value : β} :
    (key, value) ∈ table.entries ↔ table.get? key = some value :=
  (findEntry_eq_some_iff table.ordered).symm

theorem mem_keys_iff {table : Keyed β} {key : String} :
    key ∈ table.keys ↔ table.contains key = true := by
  simp only [keys, List.mem_map, Prod.exists, exists_and_right, exists_eq_right, mem_entries_iff,
    contains, Option.isSome_iff_exists]

/-- Tables that give the same for every name are the same. -/
theorem ext_get? {table table' : Keyed β} (h : ∀ key, table.get? key = table'.get? key) :
    table = table' := by
  have hirrefl : Std.Irrefl fun a b : String × β => a.1 < b.1 := ⟨fun a => String.lt_irrefl a.1⟩
  have hentries : table.entries = table'.entries :=
    List.Pairwise.eq_of_mem_iff table.ordered table'.ordered fun (key, value) => by
      rw [mem_entries_iff, mem_entries_iff, h]
  cases table
  cases table'
  cases hentries
  rfl

theorem ofList_entries (table : Keyed β) : ofList table.entries = table := by
  refine ext_get? fun key => Option.ext fun value => ⟨?_, fun h => ?_⟩
  · exact fun h => mem_entries_iff.mp (mem_of_get?_ofList h)
  · obtain ⟨found, hfound⟩ := Option.isSome_iff_exists.mp
      (contains_ofList_of_mem (mem_entries_iff.mpr h))
    have hsame := mem_entries_iff.mp (mem_of_get?_ofList hfound)
    rw [h, Option.some.injEq] at hsame
    rw [hfound, hsame]

theorem get?_union (table other : Keyed β) (key : String) :
    (table.union other).get? key = (other.get? key).or (table.get? key) := by
  rw [union, get?_foldl_insert, ← get?_ofList, ofList_entries]

/-- Storing a value under a new name adds an entry. -/
theorem entries_insert_perm {table : Keyed β} {key : String} (value : β)
    (h : table.contains key = false) :
    (table.insert key value).entries.Perm ((key, value) :: table.entries) := by
  obtain ⟨entries, hordered⟩ := table
  simp only [contains, get?, insert, Option.isSome_eq_false_iff, Option.isNone_iff_eq_none] at h ⊢
  clear hordered
  induction entries with
  | nil => exact .refl _
  | cons head rest ih =>
    obtain ⟨k, v⟩ := head
    rw [findEntry] at h
    split at h
    · cases h
    · next hne =>
      rw [insertEntry, if_neg (Ne.symm hne)]
      split
      · exact .refl _
      · exact ((ih h).cons _).trans (.swap ..)

/-! ## Sorted names -/

theorem mem_sortedNames {names : List String} {name : String} :
    name ∈ sortedNames names ↔ name ∈ names := by
  rw [sortedNames, mem_keys_iff]
  constructor
  · intro h
    obtain ⟨value, hvalue⟩ := Option.isSome_iff_exists.mp h
    simpa using mem_of_get?_ofList hvalue
  · exact fun h => contains_ofList_of_mem (List.mem_map_of_mem h)

theorem pairwise_sortedNames (names : List String) : (sortedNames names).Pairwise (· < ·) :=
  pairwise_keys _

/-- The order of a list does not show in its sorted names. -/
theorem sortedNames_eq_of_perm {names names' : List String} (h : names.Perm names') :
    sortedNames names = sortedNames names' :=
  List.Pairwise.eq_of_mem_iff (pairwise_sortedNames names) (pairwise_sortedNames names')
    fun name => by rw [mem_sortedNames, mem_sortedNames, h.mem_iff]

/-- Parts of sorted names with the same members are the same. -/
theorem filter_sortedNames_eq {names names' : List String} {p p' : String → Bool}
    (h : ∀ name, name ∈ sortedNames names ∧ p name = true ↔
      name ∈ sortedNames names' ∧ p' name = true) :
    (sortedNames names).filter p = (sortedNames names').filter p' := by
  refine List.Pairwise.eq_of_mem_iff ((pairwise_sortedNames names).filter p)
    ((pairwise_sortedNames names').filter p') fun name => ?_
  rw [List.mem_filter, List.mem_filter, h]

end ComponentWiring.Keyed

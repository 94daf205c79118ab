/-!
Tables from names to values, kept in the order of the names. `get?` is the view: `get?_insert_self`
and `get?_insert_of_ne` say what storing does, and the names of a table are strictly increasing by
construction, so two tables with the same entries are the same table.
-/

namespace ComponentWiring

namespace Keyed

/-- `entries` with `value` stored under `key`, in place of what was there. -/
def insertEntry {β : Type} (key : String) (value : β) : List (String × β) → List (String × β)
  | [] => [(key, value)]
  | (k, v) :: rest =>
    if key < k then (key, value) :: (k, v) :: rest
    else if key = k then (key, value) :: rest
    else (k, v) :: insertEntry key value rest

/-- The value stored under `key`. -/
def findEntry {β : Type} (key : String) : List (String × β) → Option β
  | [] => none
  | (k, v) :: rest => if k = key then some v else findEntry key rest

/-- The names of the entries increase strictly. -/
def Ordered {β : Type} (entries : List (String × β)) : Prop :=
  entries.Pairwise fun a b => a.1 < b.1

theorem mem_insertEntry {β : Type} {key : String} {value : β} {e : String × β}
    {entries : List (String × β)} (h : e ∈ insertEntry key value entries) :
    e = (key, value) ∨ e ∈ entries := by
  induction entries with
  | nil => simpa [insertEntry] using h
  | cons head rest ih =>
    obtain ⟨k, v⟩ := head
    rw [insertEntry] at h
    split at h
    · simpa using h
    · split at h
      · rcases List.mem_cons.1 h with h | h
        · exact .inl h
        · exact .inr (List.mem_cons_of_mem _ h)
      · rcases List.mem_cons.1 h with h | h
        · exact .inr (h ▸ List.mem_cons_self)
        · rcases ih h with h | h
          · exact .inl h
          · exact .inr (List.mem_cons_of_mem _ h)

theorem ordered_insertEntry {β : Type} (key : String) (value : β) {entries : List (String × β)}
    (h : Ordered entries) : Ordered (insertEntry key value entries) := by
  induction entries with
  | nil => simp [insertEntry, Ordered]
  | cons head rest ih =>
    obtain ⟨k, v⟩ := head
    obtain ⟨hhead, hrest⟩ := List.pairwise_cons.1 h
    rw [insertEntry]
    split
    · next hlt =>
      refine List.pairwise_cons.2 ⟨fun e he => ?_, h⟩
      rcases List.mem_cons.1 he with rfl | he
      · exact hlt
      · exact String.lt_trans hlt (hhead e he)
    · next hnot =>
      split
      · next heq =>
        subst heq
        exact List.pairwise_cons.2 ⟨hhead, hrest⟩
      · next hne =>
        refine List.pairwise_cons.2 ⟨fun e he => ?_, ih hrest⟩
        rcases mem_insertEntry he with rfl | he
        · have hle : k ≤ key := String.not_lt.1 hnot
          exact Decidable.byContradiction fun hk =>
            hne (String.le_antisymm (String.not_lt.1 hk) hle)
        · exact hhead e he

theorem findEntry_insertEntry_self {β : Type} (key : String) (value : β)
    (entries : List (String × β)) :
    findEntry key (insertEntry key value entries) = some value := by
  induction entries with
  | nil => simp [insertEntry, findEntry]
  | cons head rest ih =>
    obtain ⟨k, v⟩ := head
    rw [insertEntry]
    split
    · simp [findEntry]
    · split
      · simp [findEntry]
      · next hne => simp [findEntry, Ne.symm hne, ih]

theorem findEntry_insertEntry_of_ne {β : Type} {key other : String} (value : β)
    (entries : List (String × β)) (h : key ≠ other) :
    findEntry other (insertEntry key value entries) = findEntry other entries := by
  induction entries with
  | nil => simp [insertEntry, findEntry, h]
  | cons head rest ih =>
    obtain ⟨k, v⟩ := head
    rw [insertEntry]
    split
    · simp [findEntry, h]
    · split
      · next heq =>
        subst heq
        simp [findEntry, h]
      · by_cases hk : k = other <;> simp [findEntry, hk, ih]

end Keyed

/-- A table from names to values, in the order of the names. -/
structure Keyed (β : Type) where
  entries : List (String × β)
  ordered : Keyed.Ordered entries

namespace Keyed

variable {β : Type}

/-- The table without entries. -/
def empty : Keyed β :=
  ⟨[], List.Pairwise.nil⟩

instance : Inhabited (Keyed β) := ⟨empty⟩

instance : EmptyCollection (Keyed β) := ⟨empty⟩

instance [DecidableEq β] : DecidableEq (Keyed β) := fun a b =>
  if h : a.entries = b.entries then
    .isTrue (by cases a; cases b; simp_all)
  else
    .isFalse fun heq => h (heq ▸ rfl)

instance [Repr β] : Repr (Keyed β) := ⟨fun table n => reprPrec table.entries n⟩

/-- The value stored under a name. -/
def get? (table : Keyed β) (key : String) : Option β :=
  findEntry key table.entries

/-- Stores a value under a name, in place of what was there. -/
def insert (table : Keyed β) (key : String) (value : β) : Keyed β :=
  ⟨insertEntry key value table.entries, ordered_insertEntry key value table.ordered⟩

/-- Whether a value is stored under a name. -/
def contains (table : Keyed β) (key : String) : Bool :=
  (table.get? key).isSome

/-- The names, in order. -/
def keys (table : Keyed β) : List String :=
  table.entries.map (·.1)

/-- The number of entries. -/
def size (table : Keyed β) : Nat :=
  table.entries.length

/-- Whether there are no entries. -/
def isEmpty (table : Keyed β) : Bool :=
  table.entries.isEmpty

/-- Stores all entries of `other`; where both have a value, that of `other` stays. -/
def union (table other : Keyed β) : Keyed β :=
  other.entries.foldl (fun t e => t.insert e.1 e.2) table

/-- Stores pairs one after the other; the last value of a name stays. -/
def ofList (pairs : List (String × β)) : Keyed β :=
  pairs.foldl (fun t e => t.insert e.1 e.2) empty

@[simp] theorem get?_empty (key : String) : (empty : Keyed β).get? key = none := rfl

@[simp] theorem get?_insert_self (table : Keyed β) (key : String) (value : β) :
    (table.insert key value).get? key = some value :=
  findEntry_insertEntry_self key value table.entries

theorem get?_insert_of_ne (table : Keyed β) {key other : String} (value : β) (h : key ≠ other) :
    (table.insert key value).get? other = table.get? other :=
  findEntry_insertEntry_of_ne value table.entries h

theorem get?_insert (table : Keyed β) (key other : String) (value : β) :
    (table.insert key value).get? other = if key = other then some value else table.get? other := by
  by_cases h : key = other
  · subst h
    simp
  · simp [h, get?_insert_of_ne]

/-- The names of a table are strictly increasing. -/
theorem pairwise_keys (table : Keyed β) : table.keys.Pairwise (· < ·) :=
  List.pairwise_map.2 table.ordered

end Keyed

/-- The distinct members of a list of names, in order. -/
def sortedNames (names : List String) : List String :=
  (Keyed.ofList (names.map fun name => (name, ()))).keys

end ComponentWiring

import Mathlib.Data.List.Perm.Subperm
import Mathlib.Data.List.Sort
import ComponentWiring.Proofs.Disk.AddedFiles

/-!
Disks that are trees of directories (`Disk.IsTree`): everything stands in a directory, and the
directories above it are entries of their own, so no place lies deeper than there are entries
(`IsTree.length_le`). The names in a directory come in strict order, and what stands at a path that
leads to a file is named by the last component of the path (`IsTree.fileName?_of_find`).
-/

namespace ComponentWiring

/-! ## The name at the end of a path -/

namespace PathText

variable {path name : String}

theorem dropIdle_concat (hname : isIdle name = false) (front : List String) :
    dropIdle (front ++ [name]) = front ++ [name] := by
  induction front with
  | nil => simp [dropIdle, hname]
  | cons part front ih =>
    rw [List.cons_append, dropIdle, ih]
    split
    · next hnil => simp at hnil
    · rfl

/-- The last part of a path is its name, unless it is no component or leads up. -/
theorem fileName?_of_parts {front : List String} (hparts : parts path = front ++ [name])
    (hidle : isIdle name = false) (hup : name ≠ "..") : fileName? path = some name := by
  have hkept : (isIdle name || name == "..") = false := by simp [hidle, hup]
  unfold fileName?
  cases front with
  | nil => simp [hparts, dropIdle, hkept]
  | cons first front => simp [hparts, dropIdle_concat hidle, hkept, List.getLast?_cons]

theorem fileName?_join (hname : Disk.IsName name) (base : String) :
    fileName? (join base name) = some name := by
  by_cases hbase : base = ""
  · have hjoin : join base name = name := by simp [join, hbase]
    have hparts : parts name = [] ++ [name] := by
      simp [parts, Text.segments_of_not_mem hname.plain]
    rw [hjoin, fileName?_of_parts hparts hname.notIdle hname.notUp]
  · obtain ⟨kept, -, hparts, -⟩ := exists_parts_join hbase hname.plain
    exact fileName?_of_parts hparts hname.notIdle hname.notUp

end PathText

namespace Disk

variable {disk disk' : Disk} {place : Place} {entry : Entry} {name : String}

/-! ## The names in a directory -/

/-- The last name of a place in a directory. -/
def nameIn (directory place : Place) : Option String :=
  if !place.isEmpty && place.dropLast == directory then place.getLast? else none

theorem nameIn_eq_some_iff {directory : Place} :
    nameIn directory place = some name ↔ place = directory ++ [name] := by
  unfold nameIn
  rcases List.eq_nil_or_concat place with rfl | ⟨above, last, rfl⟩
  · simp
  · simp [List.append_singleton_inj, and_comm]

theorem names_eq (disk : Disk) (place : Place) :
    disk.names place = ((disk.entries.map Prod.fst).filterMap (nameIn place)).mergeSort := by
  rw [names, List.filterMap_map]
  rfl

/-! ## Following a path -/

/-- What is found at a path is where the path leads, if something stands there or it is the working
directory. -/
theorem find_eq_ok {path : String} : disk.find path = .ok place ↔
    disk.place path = .ok place ∧ ((disk.entry? place).isSome = true ∨ place = disk.home) := by
  unfold find
  cases hplace : disk.place path with
  | error fault => simp [bind, Except.bind]
  | ok other =>
    simp only [bind, Except.bind, pure, Except.pure, throw, throwThe, MonadExceptOf.throw,
      Bool.or_eq_true, beq_iff_eq]
    split_ifs with hthere
    · refine ⟨fun h => ?_, And.left⟩
      cases h
      exact ⟨rfl, hthere⟩
    · refine iff_of_false (by simp) ?_
      rintro ⟨h, hthere'⟩
      cases h
      exact hthere hthere'

/-- A path leads where its parts lead. -/
theorem exists_follow_of_place {path : String} (hplace : disk.place path = .ok place) :
    ∃ start, disk.follow start (PathText.parts path) = .ok place := by
  unfold Disk.place at hplace
  split_ifs at hplace
  · exact ⟨[], hplace⟩
  · exact ⟨disk.home, hplace⟩

/-- A component is only followed from a directory. -/
theorem isDirectory_of_enter {part : String} {other : Place}
    (h : disk.enter place part = .ok other) :
    disk.entry? place = some .directory ∨ place = disk.home := by
  rw [← isDirectoryAt_iff, ← beq_iff_eq (a := place), ← Bool.or_eq_true]
  by_contra hclosed
  rw [enter, if_pos (by simpa using hclosed)] at h
  cases h

/-! ## Trees -/

instance (name : String) : Decidable (IsName name) :=
  decidable_of_iff (PathText.isIdle name = false ∧ name ≠ ".." ∧ '/' ∉ name.toList)
    ⟨fun h => ⟨h.1, h.2.1, h.2.2⟩, fun h => ⟨h.notIdle, h.notUp, h.plain⟩⟩

/-- Everything on the disk stands in a directory, under a name that something can have, and alone.
The working directory is there. -/
structure IsTree (disk : Disk) : Prop where
  distinct : (disk.entries.map Prod.fst).Nodup
  named : ∀ e ∈ disk.entries, e.1 ≠ [] ∧ ∀ name ∈ e.1, IsName name
  housed : ∀ e ∈ disk.entries, disk.entry? e.1.dropLast = some .directory
  home : disk.entry? disk.home = some .directory

namespace IsTree

variable (h : disk.IsTree)

include h

theorem mem_entries_iff (hne : place ≠ []) :
    (place, entry) ∈ disk.entries ↔ disk.entry? place = some entry := by
  rw [entry?_of_ne hne, lookup_eq_some_iff_mem h.distinct]

theorem entry?_dropLast (hplace : disk.entry? place = some entry) :
    disk.entry? place.dropLast = some .directory := by
  by_cases hne : place = []
  · subst hne
    rfl
  · exact h.housed _ ((h.mem_entries_iff hne).mpr hplace)

theorem isName (hplace : disk.entry? place = some entry) (hname : name ∈ place) : IsName name := by
  have hne : place ≠ [] := List.ne_nil_of_mem hname
  exact (h.named _ ((h.mem_entries_iff hne).mpr hplace)).2 name hname

/-- The way to a place leads through entries. -/
theorem exists_entry?_of_prefix {above : Place} (hplace : disk.entry? place = some entry)
    (habove : above <+: place) : ∃ entry, disk.entry? above = some entry := by
  induction place using List.reverseRecOn generalizing entry with
  | nil => exact ⟨entry, List.prefix_nil.mp habove ▸ hplace⟩
  | append_singleton front last ih =>
    rcases List.prefix_concat_iff.mp habove with rfl | habove
    · exact ⟨entry, hplace⟩
    · have hfront := h.entry?_dropLast hplace
      rw [List.dropLast_concat] at hfront
      exact ih hfront habove

/-- No place lies deeper than there are entries. -/
theorem length_le (hplace : disk.entry? place = some entry) :
    place.length ≤ disk.entries.length := by
  let above := (List.range place.length).map fun n => place.take (n + 1)
  have hnodup : above.Nodup := List.nodup_range.map_on fun n hn m hm heq => by
    have hlength := congrArg List.length heq
    simp only [List.length_take, List.mem_range] at hlength hn hm
    omega
  have hentries : above ⊆ disk.entries.map Prod.fst := fun other hother => by
    obtain ⟨n, hn, rfl⟩ := List.mem_map.mp hother
    obtain ⟨found, hfound⟩ := h.exists_entry?_of_prefix hplace (List.take_prefix (n + 1) place)
    have hne : place.take (n + 1) ≠ [] := by
      rw [List.mem_range] at hn
      exact List.ne_nil_of_length_pos (by rw [List.length_take]; omega)
    exact List.mem_map.mpr ⟨_, (h.mem_entries_iff hne).mpr hfound, rfl⟩
  calc place.length = above.length := by simp [above]
    _ ≤ (disk.entries.map Prod.fst).length := (List.subperm_of_subset hnodup hentries).length_le
    _ = disk.entries.length := List.length_map _

/-- The names in a directory are those under which something stands there. -/
theorem mem_names_iff :
    name ∈ disk.names place ↔ ∃ entry, disk.entry? (place ++ [name]) = some entry := by
  have hne : place ++ [name] ≠ [] := by simp
  simp only [names_eq, List.mem_mergeSort, List.mem_filterMap, nameIn_eq_some_iff, List.mem_map,
    Prod.exists, exists_and_right, exists_eq_right, h.mem_entries_iff hne]

/-- What has something below it is a directory, and the way down goes on with one of its names. -/
theorem mem_names_of_below {below : Place}
    (hentry : disk.entry? (place ++ name :: below) = some entry) :
    disk.isDirectoryAt place = true ∧ name ∈ disk.names place := by
  have hway : place ++ [name] <+: place ++ name :: below := ⟨below, by simp⟩
  obtain ⟨found, hfound⟩ := h.exists_entry?_of_prefix hentry hway
  have hplace := h.entry?_dropLast hfound
  rw [List.dropLast_concat] at hplace
  exact ⟨isDirectoryAt_iff.mpr hplace, h.mem_names_iff.mpr ⟨found, hfound⟩⟩

/-- The names in a directory come in strict order. -/
theorem pairwise_names (place : Place) : (disk.names place).Pairwise (· < ·) := by
  have hnodup : ((disk.entries.map Prod.fst).filterMap (nameIn place)).Nodup :=
    h.distinct.filterMap fun a a' name ha ha' => by
      rw [nameIn_eq_some_iff.mp ha, nameIn_eq_some_iff.mp ha']
  rw [names_eq]
  have hsorted := List.pairwise_mergeSort' (· ≤ ·)
    ((disk.entries.map Prod.fst).filterMap (nameIn place))
  exact (hsorted.and ((List.mergeSort_perm _ _).nodup_iff.mpr hnodup)).imp fun hpair =>
    Std.lt_of_le_of_ne hpair.1 hpair.2

/-- What is found at a path stands there. -/
theorem exists_entry?_of_find {path : String} (hfind : disk.find path = .ok place) :
    ∃ entry, disk.entry? place = some entry := by
  rcases (find_eq_ok.mp hfind).2 with hsome | rfl
  · exact Option.isSome_iff_exists.mp hsome
  · exact ⟨.directory, h.home⟩

/-- What stands at a path that leads to a file is named by the last component of the path. -/
theorem fileName?_of_find {path : String} (hfind : disk.find path = .ok place)
    (hplace : disk.entry? place = some entry) (hfile : entry ≠ .directory) :
    PathText.fileName? path = place.getLast? := by
  have hnot : disk.entry? place ≠ some .directory := fun hdir =>
    hfile (Option.some.inj (hplace.symm.trans hdir))
  obtain ⟨start, hfollow⟩ := exists_follow_of_place (find_eq_ok.mp hfind).1
  obtain ⟨front, last, hparts⟩ :=
    (List.eq_nil_or_concat (PathText.parts path)).resolve_left (PathText.parts_ne_nil path)
  rw [List.concat_eq_append] at hparts
  rw [hparts, follow, List.foldlM_append] at hfollow
  cases hfront : front.foldlM disk.enter start with
  | error fault =>
    rw [hfront] at hfollow
    cases hfollow
  | ok above =>
    rw [hfront] at hfollow
    simp only [List.foldlM_cons, List.foldlM_nil, bind_pure] at hfollow
    have henter : disk.enter above last = .ok place := hfollow
    have habove : disk.entry? above = some .directory :=
      (isDirectory_of_enter henter).elim id fun hhome => hhome ▸ h.home
    have hstep := eq_of_enter henter
    unfold stepTo at hstep
    split_ifs at hstep with hidle hup
    · exact absurd (hstep ▸ habove) hnot
    · exact absurd (hstep ▸ h.entry?_dropLast habove) hnot
    · rw [hstep, List.getLast?_concat]
      exact PathText.fileName?_of_parts hparts (by simpa using hidle) (by simpa using hup)

/-- In which order the entries are kept does not matter. -/
theorem alike_of_perm (hhome : disk'.home = disk.home) (hperm : disk'.entries.Perm disk.entries) :
    Alike disk disk' := by
  refine ⟨hhome, hperm, fun place => ?_⟩
  by_cases hne : place = []
  · subst hne
    rfl
  · refine Option.ext fun entry => ?_
    have hdistinct : (disk'.entries.map Prod.fst).Nodup :=
      (hperm.map Prod.fst).nodup_iff.mpr h.distinct
    rw [entry?_of_ne hne, entry?_of_ne hne, lookup_eq_some_iff_mem hdistinct,
      lookup_eq_some_iff_mem h.distinct, hperm.mem_iff]

end IsTree

/-! ## Disks that hold the same -/

namespace Alike

variable (h : Alike disk disk')

include h

theorem isDirectoryAt_eq (place : Place) :
    disk'.isDirectoryAt place = disk.isDirectoryAt place := by
  rw [isDirectoryAt, isDirectoryAt, h.entry]

theorem find_eq (path : String) : disk'.find path = disk.find path := by
  have henter : disk'.enter = disk.enter := by
    funext place part
    simp only [enter, h.isDirectoryAt_eq, h.entry, h.home]
  simp only [find, Disk.place, follow, henter, h.entry, h.home]

theorem names_eq (place : Place) : disk'.names place = disk.names place := by
  rw [Disk.names_eq, Disk.names_eq]
  exact ((List.mergeSort_perm _ _).trans (((h.entries.map Prod.fst).filterMap _).trans
    (List.mergeSort_perm _ _).symm)).eq_of_pairwise' (List.pairwise_mergeSort' (· ≤ ·) _)
    (List.pairwise_mergeSort' (· ≤ ·) _)

end Alike

end Disk

end ComponentWiring

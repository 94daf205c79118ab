import Mathlib.Data.List.Induction
import ComponentWiring.Proofs.Disk.WriteOrder

/-!
Adding files to an empty tree, one after the other. A file is refused just where its path is no
output path or was added before, and then the tree stays as it is; so in the end the tree holds the
files that were added, in the order of their paths, and the first file of a path is the one that
stays (`addAll_firstWins`). An output path is made of names, and therefore leads strictly below
every root that it is joined to (`leadsBelow_toDiskPath`).
-/

namespace ComponentWiring

open Text Disk

/-! ## Paths below a root -/

namespace PathText

variable {path base name : String} {names : List String}

theorem isAbsolute_iff_head? : isAbsolute path = true ↔ path.toList.head? = some '/' := by
  rw [isAbsolute, String.startsWith_string_iff]
  exact List.singleton_prefix_iff_head?_eq_some

theorem isAbsolute_of_not_mem (hname : '/' ∉ name.toList) : isAbsolute name = false := by
  rw [Bool.eq_false_iff, ne_eq, isAbsolute_iff_head?]
  exact fun hhead => hname (List.mem_of_head? hhead)

/-- A name is joined to a path behind a slash, which may be the last character of the path. -/
theorem exists_toList_join (hbase : base ≠ "") (hname : '/' ∉ name.toList) :
    ∃ front, (join base name).toList = front ++ '/' :: name.toList ∧
      (base.toList = front ∨ base.toList = front ++ ['/']) := by
  have hempty : base.isEmpty = false := by simpa using hbase
  unfold join
  rw [isAbsolute_of_not_mem hname, hempty, Bool.false_or, if_neg Bool.false_ne_true]
  by_cases hend : base.endsWith "/" = true
  · rw [if_pos hend]
    rw [String.endsWith_eq_endsWith_toSlice, String.Slice.endsWith_string_iff] at hend
    obtain ⟨front, hfront⟩ := hend
    have hfront : base.toList = front ++ ['/'] := by simpa using hfront.symm
    exact ⟨front, by simp [hfront], .inr hfront⟩
  · rw [if_neg hend]
    exact ⟨base.toList, by simp, .inl rfl⟩

/-- A joined name is the last part, and the other parts are those of the path, except for an empty
one at its end. -/
theorem exists_parts_join (hbase : base ≠ "") (hname : '/' ∉ name.toList) :
    ∃ kept, kept ≠ [] ∧ parts (join base name) = kept ++ [name] ∧
      (parts base = kept ∨ parts base = kept ++ [""]) := by
  obtain ⟨front, hjoin, hfront⟩ := exists_toList_join hbase hname
  refine ⟨(segments '/' front).map String.ofList, by simpa using segments_ne_nil front, ?_, ?_⟩
  · rw [parts, hjoin, segments_append_sep, segments_of_not_mem hname]
    simp
  · rcases hfront with hfront | hfront
    · exact .inl (by rw [parts, hfront])
    · refine .inr ?_
      rw [parts, hfront, segments_append_sep]
      simp [segments]

theorem isAbsolute_join (hbase : base ≠ "") (hname : '/' ∉ name.toList) :
    isAbsolute (join base name) = isAbsolute base := by
  obtain ⟨front, hjoin, hfront⟩ := exists_toList_join hbase hname
  rw [Bool.eq_iff_iff, isAbsolute_iff_head?, isAbsolute_iff_head?, hjoin]
  cases front with
  | nil =>
    have hslash : base.toList = ['/'] := by
      refine hfront.resolve_left fun hnil => hbase ?_
      exact String.toList_inj.mp hnil
    simp [hslash]
  | cons c front => rcases hfront with hfront | hfront <;> simp [hfront]

/-- The components of a path as it is written: the root where the path starts there, a dot at the
very start of a relative path, and the parts that are components. -/
def components (path : String) : List String :=
  let named := (parts path).filter fun part => !isIdle part
  if isAbsolute path then "/" :: named
  else if (parts path).head? = some "." then "." :: named
  else named

/-- A name that is joined to a path is one more component. -/
theorem components_join (hname : IsName name) (base : String) :
    components (join base name) = components base ++ [name] := by
  by_cases hbase : base = ""
  · subst hbase
    have hparts : parts name = [name] := by
      simp [parts, segments_of_not_mem hname.plain]
    have hdot : name ≠ "." := by
      rintro rfl
      exact absurd hname.notIdle (by decide)
    have hjoin : join "" name = name := by simp [join]
    have hempty : components "" = [] := by decide
    rw [hjoin, hempty, components, hparts, isAbsolute_of_not_mem hname.plain]
    simp [hname.notIdle, hdot]
  · obtain ⟨kept, hne, hjoin, hparts⟩ := exists_parts_join hbase hname.plain
    have hhead : (parts (join base name)).head? = (parts base).head? := by
      rw [hjoin, List.head?_append_of_ne_nil _ hne]
      rcases hparts with hparts | hparts
      · rw [hparts]
      · rw [hparts, List.head?_append_of_ne_nil _ hne]
    have hnamed : (parts (join base name)).filter (fun part => !isIdle part) =
        (parts base).filter (fun part => !isIdle part) ++ [name] := by
      have hidle : isIdle "" = true := rfl
      rcases hparts with hparts | hparts <;> simp [hjoin, hparts, hname.notIdle, hidle]
    unfold components
    rw [isAbsolute_join hbase hname.plain, hhead, hnamed]
    split_ifs <;> rfl

theorem components_foldl_join (hnames : ∀ name ∈ names, IsName name) (base : String) :
    components (names.foldl join base) = components base ++ names := by
  induction names generalizing base with
  | nil => simp
  | cons name names ih =>
    obtain ⟨hname, hnames⟩ := List.forall_mem_cons.mp hnames
    rw [List.foldl_cons, ih hnames, components_join hname, List.append_assoc,
      List.singleton_append]

theorem parts_injective : Function.Injective parts := fun path path' h => by
  rw [← ofParts_parts path, h, ofParts_parts]

end PathText

namespace Disk

/-- A name that is joined to the path of a place leads to a place in it. -/
theorem join_pathOf {place : Place} {name : String} (hplace : ∀ part ∈ place, IsName part)
    (hname : IsName name) : PathText.join (pathOf place) name = pathOf (place ++ [name]) := by
  by_cases hroot : place = []
  · subst hroot
    have hend : "/".endsWith "/" = true := by
      rw [String.endsWith_eq_endsWith_toSlice, String.Slice.endsWith_string_iff]
      simp
    simp [PathText.join, PathText.isAbsolute_of_not_mem hname.plain, hend, pathOf]
  · have hbase : pathOf place ≠ "" := by simp [pathOf]
    have hall : ∀ part ∈ place ++ [name], IsName part :=
      List.forall_mem_append.mpr ⟨hplace, by simpa using hname⟩
    obtain ⟨kept, -, hjoin, hparts⟩ := PathText.exists_parts_join hbase hname.plain
    refine PathText.parts_injective ?_
    rw [hjoin, parts_pathOf (by simp) hall]
    rw [parts_pathOf hroot hplace] at hparts
    rcases hparts with hkept | hkept
    · rw [← hkept, List.cons_append]
    · -- The last name of a place is not empty.
      have hlast := congrArg List.getLast? hkept
      rw [List.getLast?_concat, List.getLast?_cons_of_ne_nil hroot] at hlast
      exact absurd (hplace "" (List.mem_of_getLast? hlast)).notIdle (by decide)

theorem foldl_join_pathOf {place : Place} {names : List String}
    (hplace : ∀ part ∈ place, IsName part) (hnames : ∀ name ∈ names, IsName name) :
    names.foldl PathText.join (pathOf place) = pathOf (place ++ names) := by
  induction names generalizing place with
  | nil => simp
  | cons name names ih =>
    obtain ⟨hname, hnames⟩ := List.forall_mem_cons.mp hnames
    have hall : ∀ part ∈ place ++ [name], IsName part :=
      List.forall_mem_append.mpr ⟨hplace, by simpa using hname⟩
    rw [List.foldl_cons, join_pathOf hplace hname, ih hall hnames, List.append_assoc,
      List.singleton_append]

end Disk

/-! ## Output paths -/

namespace FileTree

variable {tree tree' : FileTree} {path content root : String} {fault : OutputFault}
  {file : String × String} {files front : List (String × String)}

/-- A path below the output root, for any system: names with slashes between them, and neither
backslashes nor colons. -/
structure IsOutputPath (path : String) : Prop where
  names : ∃ names ≠ [], path = PathText.ofParts names ∧ ∀ name ∈ names, IsName name
  noBackslash : '\\' ∉ path.toList
  noColon : ':' ∉ path.toList

theorem isOutputPath_iff : IsOutputPath path ↔ pathFault? path = none := by
  constructor
  · rintro ⟨⟨names, hne, rfl, hnames⟩, hbackslash, hcolon⟩
    refine pathFault?_eq_none_iff.mpr ⟨hbackslash, hcolon, fun component hcomponent => ?_⟩
    have hparts := PathText.parts_ofParts hne fun name hname => (hnames name hname).plain
    have hname : IsName (String.ofList component) := by
      refine hnames _ ?_
      rw [← hparts]
      exact List.mem_map_of_mem hcomponent
    refine componentFault?_eq_none_iff.mpr ⟨?_, ?_, ?_⟩ <;> rintro rfl
    · exact absurd hname.notIdle (by decide)
    · exact absurd hname.notIdle (by decide)
    · exact hname.notUp rfl
  · intro hpath
    obtain ⟨hbackslash, hcolon, -⟩ := pathFault?_eq_none_iff.mp hpath
    exact ⟨⟨PathText.parts path, PathText.parts_ne_nil path, (PathText.ofParts_parts path).symm,
      fun name hname => isName_of_mem_components hpath hname⟩, hbackslash, hcolon⟩

/-- The path on the disk of a file of the tree: its components, joined to the root one by one. -/
def toDiskPath (root path : String) : String :=
  (components path).foldl PathText.join root

theorem isName_of_isOutputPath (hpath : IsOutputPath path) :
    ∀ name ∈ components path, IsName name :=
  fun _ hname => isName_of_mem_components (isOutputPath_iff.mp hpath) hname

/-- A path that leads below a root, as far as the paths show: down by at least one name, and by
names only. -/
def LeadsBelow (root path : String) : Prop :=
  ∃ names ≠ [], PathText.components path = PathText.components root ++ names ∧
    ∀ name ∈ names, IsName name

theorem leadsBelow_toDiskPath (hpath : IsOutputPath path) (root : String) :
    LeadsBelow root (toDiskPath root path) := by
  have hnames := isName_of_isOutputPath hpath
  exact ⟨components path, components_ne_nil path, PathText.components_foldl_join hnames root,
    hnames⟩

/-- The path leads to the place at which the file is written. -/
theorem toDiskPath_pathOf (hpath : IsOutputPath path) {place : Place}
    (hplace : ∀ name ∈ place, IsName name) :
    toDiskPath (pathOf place) path = pathOf (placeOf place path) :=
  foldl_join_pathOf hplace (isName_of_isOutputPath hpath)

/-! ## Calls -/

theorem add_eq_ok_iff : tree.add path content = .ok tree' ↔
    IsOutputPath path ∧ path ∉ tree.files.keys ∧ tree' = ⟨tree.files.insert path content⟩ := by
  rw [isOutputPath_iff, Keyed.mem_keys_iff, add]
  cases hfault : pathFault? path with
  | some fault => simp
  | none =>
    cases hcontains : tree.files.contains path with
    | true => simp
    | false => simp [eq_comm]

theorem addAll_append (tree : FileTree) (files more : List (String × String)) :
    addAll tree (files ++ more) = ((addAll (addAll tree files).1 more).1,
      (addAll tree files).2 ++ (addAll (addAll tree files).1 more).2) := by
  induction files generalizing tree with
  | nil => rfl
  | cons file files ih =>
    obtain ⟨path, content⟩ := file
    rw [List.cons_append, addAll, addAll]
    cases tree.add path content with
    | error fault => simp [ih]
    | ok next => simp [ih]

/-- The outcome of a call that adds a file, after the calls in front of it. -/
def outcome (front : List (String × String)) (file : String × String) :
    Except OutputFault FileTree :=
  (addAll {} front).1.add file.1 file.2

theorem addAll_concat_of_ok (h : outcome front file = .ok tree) :
    addAll {} (front ++ [file]) = (tree, (addAll {} front).2) := by
  have hone : addAll (addAll {} front).1 [file] = (tree, []) := by
    rw [outcome] at h
    simp [addAll, h]
  rw [addAll_append, hone, List.append_nil]

/-- A call that fails leaves the tree as it is. -/
theorem addAll_concat_of_error (h : outcome front file = .error fault) :
    addAll {} (front ++ [file]) = ((addAll {} front).1, (addAll {} front).2 ++ [fault]) := by
  have hone : addAll (addAll {} front).1 [file] = ((addAll {} front).1, [fault]) := by
    rw [outcome] at h
    simp [addAll, h]
  rw [addAll_append, hone]

theorem concat_prefix_concat_iff {other : String × String} :
    front ++ [file] <+: files ++ [other] ↔
      front ++ [file] <+: files ∨ front = files ∧ file = other := by
  rw [List.prefix_concat_iff, or_comm]
  refine or_congr_right ⟨fun heq => ?_, ?_⟩
  · obtain ⟨hfront, hfile⟩ := List.append_inj' heq rfl
    exact ⟨hfront, List.singleton_inj.mp hfile⟩
  · rintro ⟨rfl, rfl⟩
    rfl

/-- A call of the sequence has added the file. -/
def Added (files : List (String × String)) (file : String × String) : Prop :=
  ∃ front tree, front ++ [file] <+: files ∧ outcome front file = .ok tree

theorem added_concat_iff {other : String × String} : Added (files ++ [other]) file ↔
    Added files file ∨ file = other ∧ ∃ tree, outcome files other = .ok tree := by
  constructor
  · rintro ⟨front, tree, hfront, houtcome⟩
    rcases concat_prefix_concat_iff.mp hfront with hfront | ⟨rfl, rfl⟩
    · exact .inl ⟨front, tree, hfront, houtcome⟩
    · exact .inr ⟨rfl, tree, houtcome⟩
  · rintro (⟨front, tree, hfront, houtcome⟩ | ⟨rfl, tree, houtcome⟩)
    · exact ⟨front, tree, hfront.trans (List.prefix_append files [other]), houtcome⟩
    · exact ⟨files, tree, List.prefix_rfl, houtcome⟩

theorem mem_entries_insert_iff {table : Keyed String} (hnew : path ∉ table.keys) :
    file ∈ (table.insert path content).entries ↔ file ∈ table.entries ∨ file = (path, content) := by
  rw [Keyed.mem_keys_iff, Bool.not_eq_true] at hnew
  rw [(Keyed.entries_insert_perm content hnew).mem_iff, List.mem_cons, or_comm]

/-- The tree holds the files that were added. -/
theorem mem_addAll_iff (files : List (String × String)) (file : String × String) :
    file ∈ (addAll {} files).1.files.entries ↔ Added files file := by
  induction files using List.reverseRecOn with
  | nil =>
    refine iff_of_false (fun h => nomatch h) ?_
    rintro ⟨front, _, hfront, -⟩
    exact absurd (List.prefix_nil.mp hfront) (by simp)
  | append_singleton files other ih =>
    rw [added_concat_iff, ← ih]
    cases houtcome : outcome files other with
    | error fault => simp [addAll_concat_of_error houtcome]
    | ok tree =>
      obtain ⟨-, hnew, rfl⟩ := add_eq_ok_iff.mp houtcome
      rw [addAll_concat_of_ok houtcome]
      simpa using mem_entries_insert_iff hnew

/-- A path is in the tree if some call has added a file there. -/
theorem mem_keys_addAll_iff (files : List (String × String)) (path : String) :
    path ∈ (addAll {} files).1.files.keys ↔ ∃ content, Added files (path, content) := by
  simp only [Keyed.keys, List.mem_map, Prod.exists, exists_and_right, exists_eq_right,
    mem_addAll_iff]

theorem exists_outcome_eq_ok_iff : (∃ tree, outcome front file = .ok tree) ↔
    IsOutputPath file.1 ∧ ¬∃ content, Added front (file.1, content) := by
  rw [← mem_keys_addAll_iff]
  constructor
  · rintro ⟨tree, houtcome⟩
    obtain ⟨hpath, hnew, -⟩ := add_eq_ok_iff.mp houtcome
    exact ⟨hpath, hnew⟩
  · rintro ⟨hpath, hnew⟩
    exact ⟨_, add_eq_ok_iff.mpr ⟨hpath, hnew, rfl⟩⟩

/-! ## Building a tree -/

/-- The tree of files that are added one after the other, or the first fault. -/
def build (files : List (String × String)) : Except OutputFault FileTree :=
  match addAll {} files with
  | (tree, []) => .ok tree
  | (_, fault :: _) => .error fault

/-- The tree of generated files is built in this way. -/
theorem ofArtifacts_eq_build (artifacts : List Artifact) :
    ofArtifacts artifacts = build (artifacts.map fun a => (a.relativePath, a.content)) :=
  rfl

/-- A call of the sequence that fails, behind calls that all succeed. -/
def FirstFailing (files front : List (String × String)) (file : String × String)
    (fault : OutputFault) : Prop :=
  front ++ [file] <+: files ∧ outcome front file = .error fault ∧
    ∀ earlier other, earlier ++ [other] <+: front → ∃ tree, outcome earlier other = .ok tree

theorem build_eq_ok_iff (files : List (String × String)) (tree : FileTree) :
    build files = .ok tree ↔
      (addAll {} files).2 = [] ∧ tree = (addAll {} files).1 := by
  unfold build
  rcases addAll {} files with ⟨tree', _ | ⟨fault, faults⟩⟩ <;> simp [eq_comm]

theorem build_eq_error_iff (files : List (String × String)) (fault : OutputFault) :
    build files = .error fault ↔ (addAll {} files).2.head? = some fault := by
  unfold build
  rcases addAll {} files with ⟨tree', _ | ⟨fault', faults⟩⟩ <;> simp

theorem faults_eq_nil_iff (files : List (String × String)) :
    (addAll {} files).2 = [] ↔
      ∀ front file, front ++ [file] <+: files → ∃ tree, outcome front file = .ok tree := by
  induction files using List.reverseRecOn with
  | nil =>
    refine iff_of_true rfl fun front file hfront => ?_
    exact absurd (List.prefix_nil.mp hfront) (by simp)
  | append_singleton files other ih =>
    cases houtcome : outcome files other with
    | error fault =>
      rw [addAll_concat_of_error houtcome]
      refine iff_of_false (by simp) fun hall => ?_
      obtain ⟨tree, hok⟩ := hall files other List.prefix_rfl
      rw [houtcome] at hok
      cases hok
    | ok tree =>
      rw [addAll_concat_of_ok houtcome, ih]
      refine ⟨fun hall front file hfront => ?_, fun hall front file hfront => ?_⟩
      · rcases concat_prefix_concat_iff.mp hfront with hfront | ⟨rfl, rfl⟩
        · exact hall front file hfront
        · exact ⟨tree, houtcome⟩
      · exact hall front file (hfront.trans (List.prefix_append files [other]))

/-- A last call fails first if it fails and no call before it does. -/
theorem firstFailing_concat_iff {other : String × String} :
    FirstFailing (files ++ [other]) front file fault ↔
      FirstFailing files front file fault ∨ (front = files ∧ file = other ∧
        outcome files other = .error fault ∧ (addAll {} files).2 = []) := by
  rw [faults_eq_nil_iff]
  constructor
  · rintro ⟨hfront, houtcome, hearlier⟩
    rcases concat_prefix_concat_iff.mp hfront with hfront | ⟨rfl, rfl⟩
    · exact .inl ⟨hfront, houtcome, hearlier⟩
    · exact .inr ⟨rfl, rfl, houtcome, hearlier⟩
  · rintro (⟨hfront, houtcome, hearlier⟩ | ⟨rfl, rfl, houtcome, hearlier⟩)
    · exact ⟨hfront.trans (List.prefix_append files [other]), houtcome, hearlier⟩
    · exact ⟨List.prefix_rfl, houtcome, hearlier⟩

theorem head?_faults_eq_some_iff (files : List (String × String)) (fault : OutputFault) :
    (addAll {} files).2.head? = some fault ↔ ∃ front file, FirstFailing files front file fault := by
  induction files using List.reverseRecOn with
  | nil =>
    refine iff_of_false (by simp [addAll]) ?_
    rintro ⟨front, file, hfront, -⟩
    exact absurd (List.prefix_nil.mp hfront) (by simp)
  | append_singleton files other ih =>
    simp only [firstFailing_concat_iff, exists_or, ← ih, exists_and_left, exists_eq_left]
    cases houtcome : outcome files other with
    | ok tree => simp [addAll_concat_of_ok houtcome]
    | error found =>
      rw [addAll_concat_of_error houtcome]
      cases hfaults : (addAll {} files).2 with
      | nil => simp
      | cons first rest => simp

/-- Whatever is added to an empty tree, one file after the other: a call succeeds just where its
path is an output path that no call before has added a file at, and one that fails leaves the tree
as it is. In the end the tree holds the files that were added, in the order of their paths, and all
of them lead strictly below whatever root they are joined to, to the places at which they are
written. The tree is built if all calls succeed; otherwise the fault is that of the first one that
fails. -/
theorem addAll_firstWins (files : List (String × String)) :
    (∀ front file, front ++ [file] <+: files →
      ((∃ tree, outcome front file = .ok tree) ↔
        IsOutputPath file.1 ∧ ¬∃ content, Added front (file.1, content)) ∧
      ∀ fault, outcome front file = .error fault →
        (addAll {} (front ++ [file])).1 = (addAll {} front).1) ∧
    ((addAll {} files).1.files.entries.Pairwise fun a b => a.1 < b.1) ∧
    (∀ file, file ∈ (addAll {} files).1.files.entries ↔ Added files file) ∧
    (∀ path ∈ (addAll {} files).1.files.keys,
      (∀ root, LeadsBelow root (toDiskPath root path)) ∧
      ∀ place : Place, (∀ name ∈ place, IsName name) →
        toDiskPath (pathOf place) path = pathOf (placeOf place path)) ∧
    (∀ tree, build files = .ok tree ↔ tree = (addAll {} files).1 ∧
      ∀ front file, front ++ [file] <+: files → ∃ tree, outcome front file = .ok tree) ∧
    ∀ fault, build files = .error fault ↔ ∃ front file, FirstFailing files front file fault := by
  have hpaths : ∀ path ∈ (addAll {} files).1.files.keys, IsOutputPath path := fun path hpath =>
    isOutputPath_iff.mpr (valid_addAll valid_empty files path hpath)
  refine ⟨fun front file _ => ⟨exists_outcome_eq_ok_iff, fun fault houtcome => ?_⟩,
    (addAll {} files).1.files.ordered, mem_addAll_iff files, fun path hpath => ⟨?_, ?_⟩,
    fun tree => ?_, fun fault => ?_⟩
  · rw [addAll_concat_of_error houtcome]
  · exact leadsBelow_toDiskPath (hpaths path hpath)
  · exact fun place hplace => toDiskPath_pathOf (hpaths path hpath) hplace
  · rw [build_eq_ok_iff, faults_eq_nil_iff, and_comm]
  · rw [build_eq_error_iff, head?_faults_eq_some_iff]

end FileTree

end ComponentWiring

import Mathlib.Data.List.Nodup
import ComponentWiring.Disk.FileTree
import ComponentWiring.Proofs.Keyed
import ComponentWiring.Proofs.Text.Pieces
import ComponentWiring.Source.Token

/-!
Collecting generated files. The path of a file has a component for every part of its package and one
for its name (`segments_relativePath`), so that files of different packages or names have different
paths (`eq_of_relativePath_eq`), and a path is refused just where the package has an empty part
(`Artifact.Named.pathFault?_eq_none_iff`). Files with different paths are all collected, except for
those whose paths are refused (`collect_eq`).
-/

namespace ComponentWiring

open Text

/-! ## Paths -/

/-- A package: nothing, or parts with dots between them, none of them empty. -/
def IsPackage (package : String) : Prop :=
  package = "" ∨ [] ∉ segments '.' package.toList

instance (package : String) : Decidable (IsPackage package) :=
  inferInstanceAs (Decidable (_ ∨ _))

namespace FileTree

theorem componentFault?_eq_none_iff {component : List Char} :
    componentFault? component = none ↔
      component ≠ [] ∧ component ≠ ['.'] ∧ component ≠ ['.', '.'] := by
  unfold componentFault?
  by_cases hempty : component = []
  · simp [hempty]
  · by_cases hdots : component = ['.'] ∨ component = ['.', '.']
    · rcases hdots with rfl | rfl <;> simp
    · rw [if_neg hempty, if_neg hdots]
      simpa [hempty] using not_or.mp hdots

/-- A path is good if it holds neither backslash nor colon and all its components are good. -/
theorem pathFault?_eq_none_iff {path : String} :
    pathFault? path = none ↔ '\\' ∉ path.toList ∧ ':' ∉ path.toList ∧
      ∀ component ∈ segments '/' path.toList, componentFault? component = none := by
  unfold pathFault?
  simp only [List.contains_eq_mem, decide_eq_true_eq]
  cases hpath : path.toList with
  | nil => simp [segments, componentFault?]
  | cons c rest =>
    by_cases hslash : c = '/'
    · simp [hslash, segments, componentFault?]
    · by_cases hback : '\\' ∈ c :: rest
      · simp [hback]
      · by_cases hcolon : ':' ∈ c :: rest
        · simp [hcolon]
        · rw [if_neg (by simp), if_neg (by simp [hslash, hback, hcolon]),
            List.findSome?_eq_none_iff]
          simp [hback, hcolon]

end FileTree

/-! ## Files -/

namespace Artifact

/-- A file whose package is written with word characters and dots, and whose name with word
characters and the extension of source files. -/
structure Named (a : Artifact) : Prop where
  package : ∀ c ∈ a.package.toList, Source.isDottedChar c = true
  fileName : ∃ stem : List Char, (∀ c ∈ stem, isWordChar c = true) ∧
    a.fileName.toList = stem ++ ".kt".toList

/-- The components of the path of a file. -/
def components (a : Artifact) : List (List Char) :=
  (if a.package.isEmpty then [] else segments '.' a.package.toList) ++ [a.fileName.toList]

variable {a b : Artifact}

namespace Named

/-- A character that is neither a word character nor a dot stands in none of the names. -/
theorem not_mem (h : a.Named) {c : Char} (hc : Source.isDottedChar c = false) :
    c ∉ a.package.toList ∧ c ∉ a.fileName.toList := by
  have hword : isWordChar c = false := (Bool.or_eq_false_iff.mp hc).1
  refine ⟨fun hmem => Bool.false_ne_true (hc.symm.trans (h.package c hmem)), fun hmem => ?_⟩
  obtain ⟨stem, hstem, hname⟩ := h.fileName
  rw [hname, List.mem_append] at hmem
  rcases hmem with hmem | hmem
  · exact Bool.false_ne_true (hword.symm.trans (hstem c hmem))
  · have hextension : ∀ d ∈ ".kt".toList, Source.isDottedChar d = true :=
      List.all_eq_true.mp (by decide)
    exact Bool.false_ne_true (hc.symm.trans (hextension c hmem))

theorem mem_relativePath {c : Char} (h : c ∈ a.relativePath.toList) :
    c = '/' ∨ c ∈ a.package.toList ∨ c ∈ a.fileName.toList := by
  unfold relativePath at h
  split at h
  · exact .inr (.inr h)
  · simp only [String.toList_append, String.toList_ofList, List.mem_append, List.mem_map] at h
    rcases h with (⟨d, hd, rfl⟩ | h) | h
    · split
      · exact .inl rfl
      · exact .inr (.inl hd)
    · exact .inl (by simpa using h)
    · exact .inr (.inr h)

/-- The path of a file has a component for every part of the package and one for the name. -/
theorem segments_relativePath (h : a.Named) :
    segments '/' a.relativePath.toList = a.components := by
  obtain ⟨hpackage, hname⟩ := h.not_mem (c := '/') (by decide)
  unfold relativePath components
  split
  · rw [segments_of_not_mem hname, List.nil_append]
  · rw [String.toList_append, String.toList_append, String.toList_ofList, List.append_assoc]
    exact (segments_append_sep _ _).trans
      (congrArg₂ (· ++ ·) (segments_map_of_not_mem hpackage) (segments_of_not_mem hname))

/-- Files with the same path have the same package and the same name. -/
theorem eq_of_relativePath_eq (ha : a.Named) (hb : b.Named)
    (h : a.relativePath = b.relativePath) : a.package = b.package ∧ a.fileName = b.fileName := by
  have hcomponents : a.components = b.components := by
    rw [← ha.segments_relativePath, h, hb.segments_relativePath]
  obtain ⟨hpackage, hname⟩ := List.append_inj' hcomponents rfl
  refine ⟨?_, String.toList_inj.mp (List.singleton_inj.mp hname)⟩
  have hne : ∀ cs, segments '.' cs ≠ [] := segments_ne_nil
  split at hpackage <;> split at hpackage
  · next hempty hempty' => rw [String.isEmpty_iff.mp hempty, String.isEmpty_iff.mp hempty']
  · exact absurd hpackage.symm (hne _)
  · exact absurd hpackage (hne _)
  · exact String.toList_inj.mp (segments_injective hpackage)

/-- The path of a file is good just where its package is good. -/
theorem pathFault?_eq_none_iff (h : a.Named) :
    FileTree.pathFault? a.relativePath = none ↔ IsPackage a.package := by
  have hnot {c : Char} (hslash : c ≠ '/') (hc : Source.isDottedChar c = false) :
      c ∉ a.relativePath.toList := fun hmem => by
    obtain ⟨hpackage, hname⟩ := h.not_mem hc
    rcases mem_relativePath hmem with hmem | hmem | hmem
    exacts [hslash hmem, hpackage hmem, hname hmem]
  have hname : FileTree.componentFault? a.fileName.toList = none := by
    obtain ⟨stem, -, hname⟩ := h.fileName
    have hlength := congrArg List.length hname
    rw [List.length_append] at hlength
    refine FileTree.componentFault?_eq_none_iff.mpr ⟨?_, ?_, ?_⟩ <;> intro heq <;>
      rw [heq] at hlength <;> simp at hlength
  have hparts : (∀ part ∈ segments '.' a.package.toList,
      FileTree.componentFault? part = none) ↔ [] ∉ segments '.' a.package.toList := by
    constructor
    · intro hall hmem
      exact (FileTree.componentFault?_eq_none_iff.mp (hall [] hmem)).1 rfl
    · intro hmem part hpart
      -- A part holds no dot, so that it can only be empty.
      have hdot := not_mem_of_mem_segments hpart
      refine FileTree.componentFault?_eq_none_iff.mpr ⟨?_, ?_, ?_⟩ <;> rintro rfl
      exacts [hmem hpart, hdot (by simp), hdot (by simp)]
  rw [FileTree.pathFault?_eq_none_iff, h.segments_relativePath, components, IsPackage]
  simp only [hnot (c := '\\') (by decide) (by decide),
    hnot (c := ':') (by decide) (by decide), not_false_eq_true, true_and,
    List.forall_mem_append, List.mem_singleton, forall_eq, hname, and_true]
  by_cases hempty : a.package = ""
  · simp [hempty]
  · rw [if_neg (by simpa using hempty), hparts, or_iff_right hempty]

end Named

end Artifact

/-! ## Collecting files -/

namespace FileTree

/-- A tree whose paths are good. -/
def Valid (tree : FileTree) : Prop :=
  ∀ path ∈ tree.files.keys, pathFault? path = none

theorem valid_empty : Valid {} := by
  intro path hpath
  cases hpath

theorem valid_add {tree tree' : FileTree} {path content : String} (h : tree.Valid)
    (hadd : tree.add path content = .ok tree') : tree'.Valid := by
  unfold add at hadd
  cases hfault : pathFault? path with
  | some fault => simp [hfault] at hadd
  | none =>
    rw [hfault] at hadd
    dsimp only at hadd
    split_ifs at hadd
    cases hadd
    intro other hother
    rw [Keyed.mem_keys_iff, Keyed.contains, Keyed.get?_insert] at hother
    split_ifs at hother with heq
    · exact heq ▸ hfault
    · exact h other (Keyed.mem_keys_iff.mpr hother)

/-- Every tree that files are added to has good paths. -/
theorem valid_addAll {tree : FileTree} (h : tree.Valid) (files : List (String × String)) :
    (addAll tree files).1.Valid := by
  induction files generalizing tree with
  | nil => exact h
  | cons file files ih =>
    obtain ⟨path, content⟩ := file
    rw [addAll]
    cases hadd : tree.add path content with
    | error fault => exact ih h
    | ok next => exact ih (valid_add h hadd)

/-- The fault of a file with a bad path. -/
def fault? (file : String × String) : Option OutputFault :=
  (pathFault? file.1).map (.invalidPath file.1)

/-- Of files with different new paths those with good paths are added, and the others are faults. -/
theorem addAll_eq (tree : FileTree) {files : List (String × String)}
    (hnodup : (files.map Prod.fst).Nodup)
    (hnew : ∀ file ∈ files, tree.files.contains file.1 = false) :
    ∃ tree', addAll tree files = (tree', files.filterMap fault?) ∧
      tree'.files.entries.Perm
        (tree.files.entries ++ files.filter fun file => pathFault? file.1 = none) := by
  induction files generalizing tree with
  | nil => exact ⟨tree, rfl, by simp⟩
  | cons file files ih =>
    obtain ⟨path, content⟩ := file
    obtain ⟨hfresh, hnodup⟩ := List.nodup_cons.mp hnodup
    have hhere := hnew _ List.mem_cons_self
    have hlater : ∀ file ∈ files, tree.files.contains file.1 = false := fun file hfile =>
      hnew file (List.mem_cons_of_mem _ hfile)
    cases hfault : pathFault? path with
    | some fault =>
      obtain ⟨tree', hadded, hentries⟩ := ih tree hnodup hlater
      have hadd : tree.add path content = .error (.invalidPath path fault) := by
        rw [add, hfault]
      refine ⟨tree', ?_, ?_⟩
      · simp [addAll, hadd, hadded, fault?, hfault]
      · rwa [List.filter_cons_of_neg (by simp [hfault])]
    | none =>
      have hadd : tree.add path content = .ok ⟨tree.files.insert path content⟩ := by
        rw [add, hfault, hhere]
        rfl
      have hstillNew : ∀ file ∈ files, (tree.files.insert path content).contains file.1 = false :=
        fun file hfile => by
          have hne : path ≠ file.1 := fun heq =>
            hfresh (List.mem_map.mpr ⟨file, hfile, heq.symm⟩)
          rw [Keyed.contains, Keyed.get?_insert_of_ne _ _ hne]
          exact hlater file hfile
      obtain ⟨tree', hadded, hentries⟩ := ih ⟨tree.files.insert path content⟩ hnodup hstillNew
      refine ⟨tree', ?_, hentries.trans ?_⟩
      · simp [addAll, hadd, hadded, fault?, hfault]
      · rw [List.filter_cons_of_pos (by simpa using hfault)]
        exact ((Keyed.entries_insert_perm content hhere).append_right _).trans List.perm_middle.symm

/-- Files with different packages or names are collected if their packages are good, and the others
are faults. -/
theorem collect_eq {artifacts : List Artifact} (hnamed : ∀ a ∈ artifacts, a.Named)
    (hnodup : (artifacts.map fun a => (a.package, a.fileName)).Nodup) :
    ∃ tree faults, collect artifacts = (tree, faults) ∧
      tree.files.entries.Perm ((artifacts.filter fun a => IsPackage a.package).map
        fun a => (a.relativePath, a.content)) ∧
      (faults = [] ↔ ∀ a ∈ artifacts, IsPackage a.package) := by
  have hpaths : ((artifacts.map fun a => (a.relativePath, a.content)).map Prod.fst).Nodup := by
    rw [List.map_map]
    refine List.Nodup.map_on (fun a ha b hb heq => ?_) hnodup.of_map
    obtain ⟨hpackage, hname⟩ := (hnamed a ha).eq_of_relativePath_eq (hnamed b hb) heq
    exact List.inj_on_of_nodup_map hnodup ha hb (Prod.ext hpackage hname)
  obtain ⟨tree, hadded, hentries⟩ := addAll_eq {} hpaths fun _ _ => rfl
  refine ⟨tree, _, hadded, hentries.trans (.of_eq ?_), ?_⟩
  · have hempty : ({} : FileTree).files.entries = [] := rfl
    rw [hempty, List.nil_append, List.filter_map]
    refine congrArg _ (List.filter_congr fun a ha => ?_)
    simp [(hnamed a ha).pathFault?_eq_none_iff]
  · simp only [List.filterMap_eq_nil_iff, List.forall_mem_map, fault?, Option.map_eq_none_iff]
    exact forall₂_congr fun a ha => (hnamed a ha).pathFault?_eq_none_iff

/-- Where nothing is a fault the tree is built. -/
theorem ofArtifacts_eq_ok_iff {artifacts : List Artifact} :
    (∃ tree, ofArtifacts artifacts = .ok tree) ↔ (collect artifacts).2 = [] := by
  unfold ofArtifacts
  rcases collect artifacts with ⟨tree, _ | ⟨fault, faults⟩⟩ <;> simp

/-- A tree to which files are added without a fault holds them besides its own. -/
theorem entries_perm_of_addAll {tree tree' : FileTree} {files : List (String × String)}
    (h : addAll tree files = (tree', [])) :
    tree'.files.entries.Perm (files ++ tree.files.entries) := by
  induction files generalizing tree with
  | nil =>
    cases h
    exact .refl _
  | cons file files ih =>
    obtain ⟨path, content⟩ := file
    rw [addAll, add] at h
    cases hfault : pathFault? path with
    | some fault => simp [hfault] at h
    | none =>
      cases hcontains : tree.files.contains path with
      | true => simp [hfault, hcontains] at h
      | false =>
        simp only [hfault, hcontains, Bool.false_eq_true, if_false] at h
        exact (ih h).trans (((Keyed.entries_insert_perm content hcontains).append_left _).trans
          List.perm_middle)

theorem entries_perm_of_ofArtifacts {artifacts : List Artifact} {tree : FileTree}
    (h : ofArtifacts artifacts = .ok tree) :
    tree.files.entries.Perm (artifacts.map fun a => (a.relativePath, a.content)) := by
  cases hcollect : collect artifacts with
  | mk found faults =>
    cases faults with
    | cons fault faults => simp [ofArtifacts, hcollect] at h
    | nil =>
      simp only [ofArtifacts, hcollect, Except.ok.injEq] at h
      subst h
      exact (entries_perm_of_addAll hcollect).trans (.of_eq (List.append_nil _))

end FileTree

end ComponentWiring

import Mathlib.Data.List.Pairwise
import ComponentWiring.Proofs.Disk.MadeDirectories
import ComponentWiring.Proofs.Disk.WrittenFiles

/-!
The order in which files are written. A file that is written touches its place and that of its
neighbour, and whether it can be written depends on the directories alone, which no file changes
(`writeFile_eq_ok_iff`, `Writable.of_keeps`). So files that do not touch each other's places can be
written in any order if they can be written in one, and leave the same (`writeAll_eq_ok_iff`,
`writeInOrder_agrees`).
-/

namespace ComponentWiring

namespace Disk

variable {disk disk' : Disk} {place : Place} {gone gone' : List Place}
  {new new' : List (Place × Entry)}

/-! ## Replacing entries -/

/-- The disk with entries instead of what stood at some places. -/
def replace (disk : Disk) (gone : List Place) (new : List (Place × Entry)) : Disk :=
  { disk with entries := (disk.entries.filter fun e => e.1 ∉ gone) ++ new }

theorem replace_congr (h : ∀ place, place ∈ gone ↔ place ∈ gone') :
    disk.replace gone new = disk.replace gone' new := by
  simp only [replace, h]

theorem replace_replace : (disk.replace gone new).replace gone' new' =
    disk.replace (gone ++ gone') ((new.filter fun e => e.1 ∉ gone') ++ new') := by
  simp only [replace, List.filter_append, List.filter_filter, List.append_assoc, List.mem_append,
    not_or, Bool.decide_and, Bool.and_comm]

theorem filter_ne_eq (entries : List (Place × Entry)) (place : Place) :
    (entries.filter fun e => e.1 != place) = entries.filter fun e => e.1 ∉ [place] :=
  List.filter_congr fun e _ => by by_cases h : e.1 = place <;> simp [h]

theorem erase_eq_replace (disk : Disk) (place : Place) :
    disk.erase place = disk.replace [place] [] := by
  rw [erase, replace, filter_ne_eq, List.append_nil]

theorem put_eq_replace (disk : Disk) (place : Place) (entry : Entry) :
    disk.put place entry = disk.replace [place] [(place, entry)] := by
  rw [put, replace, filter_ne_eq]

/-- What is put aside and moved to its place stands there only. -/
theorem put_erase_put (disk : Disk) (aside place : Place) (entry : Entry) :
    ((disk.put aside entry).erase aside).put place entry =
      disk.replace [aside, place] [(place, entry)] := by
  have haside : ([(aside, entry)].filter fun e => decide (e.1 ∉ [aside] ++ [place])) = [] := by
    simp
  rw [put_eq_replace, put_eq_replace, erase_eq_replace, replace_replace, replace_replace, haside]
  exact replace_congr fun other => by simp

theorem entry?_replace_of_mem (hgone : place ∈ gone) (hne : place ≠ []) :
    entry? (disk.replace gone new) place = new.lookup place := by
  rw [entry?_of_ne hne, replace, List.lookup_append, lookup_filter_fst fun key => key ∉ gone,
    if_neg (by simpa using hgone), Option.none_or]

theorem entry?_replace_of_not_mem (hgone : place ∉ gone) (hnew : ∀ e ∈ new, e.1 ∈ gone) :
    entry? (disk.replace gone new) place = disk.entry? place := by
  by_cases hne : place = []
  · subst hne
    rfl
  · have hnone : new.lookup place = none := List.lookup_eq_none_iff.mpr fun e he => by
      simpa using fun heq : place = e.1 => hgone (heq ▸ hnew e he)
    rw [entry?_of_ne hne, entry?_of_ne hne, replace, List.lookup_append,
      lookup_filter_fst fun key => key ∉ gone, if_pos (by simpa using hgone), hnone, Option.or_none]

/-- Disks that hold the same. -/
structure Alike (disk disk' : Disk) : Prop where
  home : disk'.home = disk.home
  entries : disk'.entries.Perm disk.entries
  entry : ∀ place, disk'.entry? place = disk.entry? place

theorem lookup_eq_some_iff_mem {α β : Type} [BEq α] [LawfulBEq α] {entries : List (α × β)}
    {key : α} {value : β} (h : (entries.map Prod.fst).Nodup) :
    entries.lookup key = some value ↔ (key, value) ∈ entries := by
  induction entries with
  | nil => simp
  | cons e entries ih =>
    obtain ⟨k, v⟩ := e
    obtain ⟨hnew, h⟩ := List.nodup_cons.mp h
    rw [List.lookup_cons, List.mem_cons, Prod.mk.injEq]
    by_cases hkey : key = k
    · subst hkey
      have hnot : (key, value) ∉ entries := fun hmem => hnew (List.mem_map.mpr ⟨_, hmem, rfl⟩)
      simp [hnot, eq_comm]
    · rw [beq_eq_false_iff_ne.mpr hkey]
      simp [hkey, ih h]

/-- The order of new entries does not matter. -/
theorem alike_replace (hgone : ∀ place, place ∈ gone ↔ place ∈ gone') (hnew : new.Perm new')
    (hin : ∀ e ∈ new, e.1 ∈ gone) (hnodup : (new.map Prod.fst).Nodup) :
    Alike (disk.replace gone new) (disk.replace gone' new') := by
  rw [← replace_congr hgone]
  refine ⟨rfl, hnew.symm.append_left _, fun place => ?_⟩
  have hin' : ∀ e ∈ new', e.1 ∈ gone := fun e he => hin e (hnew.mem_iff.mpr he)
  by_cases hne : place = []
  · subst hne
    rfl
  · by_cases hplace : place ∈ gone
    · rw [entry?_replace_of_mem hplace hne, entry?_replace_of_mem hplace hne]
      refine Option.ext fun entry => ?_
      rw [lookup_eq_some_iff_mem hnodup, hnew.mem_iff,
        lookup_eq_some_iff_mem ((hnew.map Prod.fst).nodup_iff.mp hnodup)]
    · rw [entry?_replace_of_not_mem hplace hin, entry?_replace_of_not_mem hplace hin']

/-! ## Writing -/

/-- A file can be written at a place. -/
structure Accepts (disk : Disk) (place : Place) : Prop where
  plain : '\x00' ∉ (pathOf place).toList
  free : disk.entry? place ≠ some .directory
  within : ∃ found, disk.enter place.dropLast (place.getLast?.getD "") = .ok found

theorem write_eq_ok_iff {content : String} : disk.write place content = .ok disk' ↔
    disk.Accepts place ∧ disk' = disk.put place (.text content) := by
  constructor
  · intro h
    obtain ⟨hfree, rfl⟩ := eq_of_write h
    refine ⟨⟨?_, hfree, ?_⟩, rfl⟩
    all_goals
      unfold write at h
      split_ifs at h with hnull hdirectory
    · simpa using hnull
    · cases henter : disk.enter place.dropLast (place.getLast?.getD "") with
      | error fault => simp [henter, Except.map] at h
      | ok found => exact ⟨found, rfl⟩
  · rintro ⟨⟨hplain, hfree, found, henter⟩, rfl⟩
    unfold write
    rw [if_neg (by simpa using hplain), if_neg (mt isDirectoryAt_iff.mp hfree), henter]
    rfl

theorem rename_eq_ok_iff {other : Place} {entry : Entry} (h : disk.entry? place = some entry) :
    disk.rename place other = .ok disk' ↔
      disk.entry? other ≠ some .directory ∧ disk' = (disk.erase place).put other entry := by
  rw [rename, h]
  dsimp only
  rw [ne_eq, ← isDirectoryAt_iff]
  split_ifs with hdirectory
  · simp [hdirectory]
  · simp [hdirectory, eq_comm]

/-- What can be written depends on the directories only. -/
theorem Accepts.of_keeps (h : Keeps disk disk') (h' : Keeps disk' disk)
    (haccepts : disk.Accepts place) : disk'.Accepts place where
  plain := haccepts.plain
  free hdirectory := haccepts.free (h'.directory place hdirectory)
  within := haccepts.within.imp fun _ => h.enter

/-- Putting a file where no directory stands leaves the directories alone. -/
theorem keeps_replace {place : Place} {content : String} (hne : [] ∉ gone)
    (hfree : ∀ place ∈ gone, disk.entry? place ≠ some .directory) (hplace : place ∈ gone) :
    Keeps disk (disk.replace gone [(place, .text content)]) ∧
      Keeps (disk.replace gone [(place, .text content)]) disk := by
  have hin : ∀ e ∈ [(place, Entry.text content)], e.1 ∈ gone := by simpa using hplace
  refine ⟨⟨rfl, fun other hother => ?_⟩, ⟨rfl, fun other hother => ?_⟩⟩
  · rwa [entry?_replace_of_not_mem (fun hmem => hfree other hmem hother) hin]
  · by_cases hmem : other ∈ gone
    · rw [entry?_replace_of_mem hmem (ne_of_mem_of_not_mem hmem hne)] at hother
      simp [lookup_eq_some_iff_mem] at hother
    · rwa [entry?_replace_of_not_mem hmem hin] at hother

end Disk

namespace FileTree

open Disk

variable {disk disk' : Disk} {place root : Place} {options : WriteOptions} {path : String}
  {files files' order : List (String × String)} {content : String} {before written : Nat}

/-! ## One file -/

section Steps

variable {α β : Type} {effect : Effect α} {step : Disk → α → Effect β}

theorem next_eq_ok_iff {value : β} : effect.next step = (.ok value, disk') ↔
    ∃ a mid, effect = (.ok a, mid) ∧ step mid a = (.ok value, disk') := by
  refine ⟨next_eq_ok, ?_⟩
  rintro ⟨a, mid, rfl, h⟩
  exact h

theorem newOnly_next {places : Place → Prop} (heffect : NewOnly places disk effect.2)
    (hstep : ∀ a, NewOnly places effect.2 (step effect.2 a).2) :
    NewOnly places disk (effect.next step).2 := by
  obtain ⟨_ | a, mid⟩ := effect
  · exact heffect
  · exact heffect.trans (hstep a)

end Steps

/-- Whether a file is left as it is. -/
def spares (options : WriteOptions) (disk : Disk) (place : Place) : Bool :=
  !options.overwrite && (disk.entry? place).isSome

/-- Where a file is written first. -/
def staged (options : WriteOptions) (place : Place) : Place :=
  if options.atomic then temporary place else place

/-- A file can be written at a place, first where it is staged. -/
structure Writable (options : WriteOptions) (disk : Disk) (place : Place) : Prop where
  staged : disk.Accepts (staged options place)
  free : disk.entry? place ≠ some .directory

theorem Writable.of_keeps (h : Keeps disk disk') (h' : Keeps disk' disk)
    (hwritable : Writable options disk place) : Writable options disk' place where
  staged := hwritable.staged.of_keeps h h'
  free hdirectory := hwritable.free (h'.directory place hdirectory)

theorem temporary_ne (h : place ≠ []) : temporary place ≠ place := by
  intro heq
  have hlast := congrArg List.getLast? heq
  rw [temporary, List.getLast?_append_of_ne_nil _ (List.cons_ne_nil _ _), List.getLast?_singleton,
    List.getLast?_eq_some_getLast h, Option.getD_some, Option.some.injEq] at hlast
  have hlength := congrArg String.length hlast
  rw [String.length_append] at hlength
  have : 0 < ".tmp".length := by decide
  omega

/-- A file that is not spared is written if it can be, and then stands at its place; nothing stands
where it was staged. -/
theorem writeFile_eq_ok_iff {wrote : Bool} (hne : place ≠ []) :
    writeFile disk options place content = (.ok wrote, disk') ↔
      if spares options disk place then wrote = false ∧ disk' = disk
      else Writable options disk place ∧ wrote = true ∧
        disk' = disk.replace [staged options place, place] [(place, .text content)] := by
  have haside : Disk.entry? (disk.put (temporary place) (.text content))
      (temporary place) = some (.text content) := by
    rw [entry?_put (temporary_ne_nil place), if_pos rfl]
  have hkept :
      Disk.entry? (disk.put (temporary place) (.text content)) place = disk.entry? place := by
    rw [entry?_put (temporary_ne_nil place), if_neg (temporary_ne hne).symm]
  have hput : disk.put place (.text content) =
      disk.replace [place, place] [(place, .text content)] := by
    rw [put_eq_replace]
    exact replace_congr fun other => by simp
  unfold writeFile
  rw [← spares]
  split_ifs with hspares hatomic
  · simp [eq_comm]
  · rw [staged, if_pos hatomic]
    constructor
    · intro h
      obtain ⟨_, mid, hwrite, h⟩ := next_eq_ok h
      obtain ⟨_, final, hrename, h⟩ := next_eq_ok h
      cases h
      obtain ⟨haccepts, rfl⟩ := write_eq_ok_iff.mp (attempt_eq_ok hwrite)
      obtain ⟨hfree, rfl⟩ := (rename_eq_ok_iff haside).mp (attempt_eq_ok hrename)
      exact ⟨⟨by rwa [staged, if_pos hatomic], hkept ▸ hfree⟩, rfl, put_erase_put ..⟩
    · rintro ⟨⟨haccepts, hfree⟩, rfl, rfl⟩
      rw [staged, if_pos hatomic] at haccepts
      dsimp only
      rw [write_eq_ok_iff.mpr ⟨haccepts, rfl⟩]
      dsimp only [attempt, Effect.next]
      rw [(rename_eq_ok_iff haside).mpr ⟨hkept ▸ hfree, rfl⟩, put_erase_put]
  · rw [staged, if_neg hatomic]
    constructor
    · intro h
      obtain ⟨_, mid, hwrite, h⟩ := next_eq_ok h
      cases h
      obtain ⟨haccepts, rfl⟩ := write_eq_ok_iff.mp (attempt_eq_ok hwrite)
      exact ⟨⟨by rwa [staged, if_neg hatomic], haccepts.free⟩, rfl, hput⟩
    · rintro ⟨⟨haccepts, hfree⟩, rfl, rfl⟩
      rw [staged, if_neg hatomic] at haccepts
      rw [write_eq_ok_iff.mpr ⟨haccepts, rfl⟩, ← hput]
      rfl

/-! ## Files that do not touch each other -/

/-- The paths of two files differ, and none is the neighbour of the other. -/
def Beside (a b : String × String) : Prop :=
  a.1 ≠ b.1 ∧ a.1 ≠ b.1 ++ ".tmp" ∧ b.1 ≠ a.1 ++ ".tmp"

instance : Std.Symm Beside :=
  ⟨fun _ _ h => ⟨h.1.symm, h.2.2, h.2.1⟩⟩

/-- Files that do not touch each other's places. -/
def Apart (files : List (String × String)) : Prop :=
  files.Pairwise Beside

theorem Apart.perm (h : Apart files) (hperm : files.Perm files') : Apart files' :=
  (hperm.pairwise_iff fun h => Std.Symm.symm _ _ h).mp h

/-- The places that are touched where a file is written. -/
def touched (options : WriteOptions) (root : Place) (file : String × String) : List Place :=
  [staged options (placeOf root file.1), placeOf root file.1]

/-- The neighbour of a file stands where the file would stand with one more extension. -/
theorem temporary_placeOf (root : Place) (path : String) :
    temporary (placeOf root path) = placeOf root (path ++ ".tmp") := by
  have hextension : '/' ∉ ".tmp".toList := by decide
  obtain ⟨pieces, piece, hpath, hlonger⟩ :=
    Text.segments_append_of_not_mem_right path.toList hextension
  have hcomponents : components path = pieces.map String.ofList ++ [String.ofList piece] := by
    rw [components, PathText.parts, hpath, List.map_append, List.map_singleton]
  have hlongerComponents : components (path ++ ".tmp") =
      pieces.map String.ofList ++ [String.ofList piece ++ ".tmp"] := by
    rw [components, PathText.parts, String.toList_append, hlonger, List.map_append,
      List.map_singleton, String.ofList_append, String.ofList_toList]
  rw [placeOf, placeOf, hcomponents, hlongerComponents, ← List.append_assoc, temporary,
    List.dropLast_concat, List.getLast?_concat, Option.getD_some, List.append_assoc]

theorem not_mem_touched {file other : String × String} (hne : file.1 ≠ other.1)
    (haside : file.1 ≠ other.1 ++ ".tmp") : placeOf root file.1 ∉ touched options root other := by
  have hplace : placeOf root file.1 ≠ placeOf root other.1 := (placeOf_injective root).ne hne
  have hstaged : placeOf root file.1 ≠ staged options (placeOf root other.1) := by
    rw [staged, temporary_placeOf]
    split_ifs
    · exact (placeOf_injective root).ne haside
    · exact hplace
  simp [touched, hplace, hstaged]

/-- The disk on which files stand at their places, and nothing where they were staged. -/
def withFiles (options : WriteOptions) (root : Place) (disk : Disk)
    (files : List (String × String)) : Disk :=
  disk.replace (files.flatMap (touched options root))
    (files.map fun file => (placeOf root file.1, .text file.2))

theorem nil_not_mem_touched (files : List (String × String)) :
    [] ∉ files.flatMap (touched options root) := by
  simp only [List.mem_flatMap, touched, List.mem_cons, List.not_mem_nil, or_false, not_exists,
    not_and, not_or]
  refine fun file _ => ⟨?_, (placeOf_ne_nil root file.1).symm⟩
  rw [staged, temporary_placeOf]
  split_ifs <;> exact (placeOf_ne_nil root _).symm

theorem fst_mem_touched {e : Place × Entry}
    (h : e ∈ files.map fun file => (placeOf root file.1, Entry.text file.2)) :
    e.1 ∈ files.flatMap (touched options root) := by
  obtain ⟨file, hfile, rfl⟩ := List.mem_map.mp h
  exact List.mem_flatMap.mpr ⟨file, hfile, by simp [touched]⟩

theorem entry?_withFiles_of_not_mem (h : place ∉ files.flatMap (touched options root)) :
    Disk.entry? (withFiles options root disk files) place = disk.entry? place :=
  entry?_replace_of_not_mem h fun _ => fst_mem_touched

theorem withFiles_cons {file : String × String}
    (h : ∀ other ∈ files, file.1 ≠ other.1 ∧ file.1 ≠ other.1 ++ ".tmp") :
    withFiles options root (withFiles options root disk [file]) files =
      withFiles options root disk (file :: files) := by
  have hnot : placeOf root file.1 ∉ files.flatMap (touched options root) := fun hmem => by
    obtain ⟨other, hother, hmem⟩ := List.mem_flatMap.mp hmem
    exact not_mem_touched (h other hother).1 (h other hother).2 hmem
  rw [withFiles, withFiles, replace_replace]
  simp [withFiles, hnot]

/-- Writing a file leaves the directories alone. -/
theorem keeps_withFiles {file : String × String}
    (h : Writable options disk (placeOf root file.1)) :
    Keeps disk (withFiles options root disk [file]) ∧
      Keeps (withFiles options root disk [file]) disk := by
  refine keeps_replace (nil_not_mem_touched [file]) (fun place hplace => ?_) (by simp [touched])
  simp only [List.flatMap_singleton, touched, List.mem_cons, List.not_mem_nil, or_false] at hplace
  rcases hplace with rfl | rfl
  exacts [h.staged.free, h.free]

/-- The files that are not spared. -/
def due (options : WriteOptions) (disk : Disk) (root : Place) (files : List (String × String)) :
    List (String × String) :=
  files.filter fun file => !spares options disk (placeOf root file.1)

theorem due_withFiles {file : String × String}
    (h : ∀ other ∈ files, other.1 ≠ file.1 ∧ other.1 ≠ file.1 ++ ".tmp") :
    due options (withFiles options root disk [file]) root files = due options disk root files := by
  refine List.filter_congr fun other hother => ?_
  have hnot : placeOf root other.1 ∉ [file].flatMap (touched options root) := by
    rw [List.flatMap_singleton]
    exact not_mem_touched (h other hother).1 (h other hother).2
  rw [spares, spares, entry?_withFiles_of_not_mem hnot]

/-- One file is spared, or it is written if it can be. -/
theorem writeFile_file_eq_ok_iff {file : String × String} {wrote : Bool} :
    writeFile disk options (placeOf root file.1) file.2 = (.ok wrote, disk') ↔
      if spares options disk (placeOf root file.1) then wrote = false ∧ disk' = disk
      else Writable options disk (placeOf root file.1) ∧ wrote = true ∧
        disk' = withFiles options root disk [file] := by
  rw [writeFile_eq_ok_iff (placeOf_ne_nil root file.1), withFiles, List.flatMap_singleton]
  rfl

theorem writeAll_cons (before : Nat) (disk : Disk) (file : String × String)
    (files : List (String × String)) :
    writeAll options root before disk (file :: files) =
      (writeFile disk options (placeOf root file.1) file.2).next fun disk wrote =>
        writeAll options root (if wrote then before + 1 else before) disk files :=
  rfl

/-- Files that do not touch each other are written if each of them can be written, and the disk is
the one that they are written on but for the places that are touched. -/
theorem writeAll_eq_ok_iff (hapart : Apart files) :
    writeAll options root before disk files = (.ok written, disk') ↔
      (∀ file ∈ due options disk root files, Writable options disk (placeOf root file.1)) ∧
      written = before + (due options disk root files).length ∧
      disk' = withFiles options root disk (due options disk root files) := by
  induction files generalizing before disk with
  | nil => simp [writeAll, due, withFiles, replace, eq_comm]
  | cons file files ih =>
    obtain ⟨hfile, hfiles⟩ := List.pairwise_cons.mp hapart
    rw [writeAll_cons, next_eq_ok_iff]
    simp only [writeFile_file_eq_ok_iff, ih hfiles]
    cases hspares : spares options disk (placeOf root file.1) with
    | true =>
      have hdue : due options disk root (file :: files) = due options disk root files :=
        List.filter_cons_of_neg (by simp [hspares])
      simp only [if_true, hdue, and_assoc, exists_and_left, exists_eq_left, Bool.false_eq_true,
        if_false]
    | false =>
      have hdue : due options disk root (file :: files) = file :: due options disk root files :=
        List.filter_cons_of_pos (by simp [hspares])
      have hrest : due options (withFiles options root disk [file]) root files =
          due options disk root files :=
        due_withFiles fun other hother => ⟨(hfile other hother).1.symm, (hfile other hother).2.2⟩
      have hcons : withFiles options root (withFiles options root disk [file])
            (due options disk root files) =
          withFiles options root disk (file :: due options disk root files) :=
        withFiles_cons fun other hother =>
          (hfile other (List.mem_of_mem_filter hother)).imp_right And.left
      simp only [Bool.false_eq_true, if_false, hdue, List.forall_mem_cons, and_assoc,
        List.length_cons]
      constructor
      · rintro ⟨_, _, hwritable, rfl, rfl, hall, rfl, rfl⟩
        rw [hrest] at hall ⊢
        obtain ⟨hkeeps, hkeeps'⟩ := keeps_withFiles hwritable
        exact ⟨hwritable, fun other hother => (hall other hother).of_keeps hkeeps' hkeeps,
          by simp [Nat.add_assoc, Nat.add_comm 1], hcons⟩
      · rintro ⟨hwritable, hall, rfl, rfl⟩
        obtain ⟨hkeeps, hkeeps'⟩ := keeps_withFiles hwritable
        refine ⟨_, _, hwritable, rfl, rfl, ?_⟩
        rw [hrest]
        exact ⟨fun other hother => (hall other hother).of_keeps hkeeps hkeeps',
          by simp [Nat.add_assoc, Nat.add_comm 1], hcons.symm⟩

theorem nodup_placeOf (hapart : Apart files) :
    ((files.map fun file => (placeOf root file.1, Entry.text file.2)).map Prod.fst).Nodup := by
  rw [List.map_map]
  exact List.pairwise_map.mpr (hapart.imp fun h => (placeOf_injective root).ne h.1)

/-- In whatever order files stand at their places, they leave the same. -/
theorem alike_withFiles (hapart : Apart files) (hperm : files.Perm files') :
    Alike (withFiles options root disk files) (withFiles options root disk files') :=
  alike_replace (fun _ => (hperm.flatMap_right _).mem_iff) (hperm.map _)
    (fun _ => fst_mem_touched) (nodup_placeOf hapart)

theorem entry?_withFiles_of_mem (hapart : Apart files) {file : String × String}
    (hfile : file ∈ files) :
    Disk.entry? (withFiles options root disk files) (placeOf root file.1) =
      some (.text file.2) := by
  have hnew := List.mem_map_of_mem (f := fun file : String × String =>
    (placeOf root file.1, Entry.text file.2)) hfile
  rw [withFiles, entry?_replace_of_mem (fst_mem_touched hnew) (placeOf_ne_nil root file.1)]
  exact (lookup_eq_some_iff_mem (nodup_placeOf hapart)).mpr hnew

/-- A file that is not among those that were written still is what it was. -/
theorem entry?_withFiles_of_apart (hapart : Apart files) (hsub : files' ⊆ files)
    {file : String × String} (hfile : file ∈ files) (hnot : file ∉ files') :
    Disk.entry? (withFiles options root disk files') (placeOf root file.1) =
      disk.entry? (placeOf root file.1) := by
  refine entry?_withFiles_of_not_mem fun hmem => ?_
  obtain ⟨other, hother, hmem⟩ := List.mem_flatMap.mp hmem
  have hne : file ≠ other := fun heq => hnot (heq ▸ hother)
  have hdiffer := hapart.forall hfile (hsub hother) hne
  exact not_mem_touched hdiffer.1 hdiffer.2.1 hmem

/-! ## Trees -/

/-- No file of the tree is in the way of another one: none is the neighbour of another one, and none
stands where another one needs a directory. -/
structure Separate (tree : FileTree) : Prop where
  aside : ∀ path ∈ tree.files.keys, ∀ other ∈ tree.files.keys, other ≠ path ++ ".tmp"
  above : ∀ path ∈ tree.files.keys, ∀ other ∈ tree.files.keys,
    components path <+: components other → path = other

variable {tree : FileTree}

theorem Separate.apart (h : tree.Separate) : Apart tree.files.entries := by
  refine tree.files.ordered.imp_of_mem fun {a b} ha hb hlt => ⟨String.ne_of_lt hlt, ?_, ?_⟩
  · exact h.aside b.1 (List.mem_map_of_mem hb) a.1 (List.mem_map_of_mem ha)
  · exact h.aside a.1 (List.mem_map_of_mem ha) b.1 (List.mem_map_of_mem hb)

theorem isName_of_mem_components {name : String} (hpath : pathFault? path = none)
    (hname : name ∈ components path) : IsName name := by
  have hplain := PathText.not_mem_of_mem_parts hname
  obtain ⟨component, hcomponent, rfl⟩ := List.mem_map.mp hname
  obtain ⟨hempty, hdot, hup⟩ := componentFault?_eq_none_iff.mp
    ((pathFault?_eq_none_iff.mp hpath).2.2 component hcomponent)
  have hne {cs : List Char} (h : component ≠ cs) : String.ofList component ≠ String.ofList cs :=
    fun heq => h (String.ofList_injective heq)
  refine ⟨?_, hne hup, hplain⟩
  rw [PathText.isIdle, Bool.or_eq_false_iff, beq_eq_false_iff_ne]
  exact ⟨Bool.eq_false_iff.mpr fun h => hne hempty (String.isEmpty_iff.mp h), hne hdot⟩

theorem newOnly_makeDirectory (disk : Disk) (path : String) :
    NewOnly (OnTheWay disk.home path) disk (makeDirectory disk path).2 := by
  have h := newOnly_makeDirectories (path.length + 1) disk path
  unfold makeDirectory ensureDirectory
  split
  · next heq => rwa [heq] at h
  · next heq => rwa [heq] at h

theorem newOnly_makeAll (disk : Disk) (places : List Place) :
    NewOnly (fun place => ∃ target ∈ places, OnTheWay disk.home (pathOf target) place) disk
      (makeAll disk places).2 := by
  induction places generalizing disk with
  | nil => exact .refl disk
  | cons target rest ih =>
    have hgrows := grows_makeDirectory disk (pathOf target)
    refine newOnly_next ((newOnly_makeDirectory disk (pathOf target)).mono fun place h =>
      ⟨target, List.mem_cons_self, h⟩) fun _ => (ih _).mono fun place h => ?_
    obtain ⟨other, hother, h⟩ := h
    exact ⟨other, List.mem_cons_of_mem target hother, hgrows.home ▸ h⟩

theorem exists_of_mem_directories {target : Place} (h : target ∈ tree.directories root) :
    ∃ path ∈ tree.files.keys, target = root ++ (components path).dropLast := by
  rw [directories, List.mem_mergeSort, List.mem_eraseDups] at h
  obtain ⟨path, hpath, rfl⟩ := List.mem_map.mp (List.mem_filter.mp h).1
  exact ⟨path, hpath, rfl⟩

/-- Where a file will stand no directory is made. -/
theorem entry?_makeAll_directories (hvalid : tree.Valid) (hseparate : tree.Separate)
    (hpath : path ∈ tree.files.keys) (disk : Disk) (root : Place) :
    Disk.entry? (makeAll disk (tree.directories root)).2 (placeOf root path) =
      disk.entry? (placeOf root path) := by
  refine ((grows_makeAll disk (tree.directories root)).entry _).resolve_right ?_
  rintro ⟨hnone, hdirectory⟩
  obtain ⟨target, htarget, hway⟩ :=
    newOnly_makeAll disk (tree.directories root) _ hnone (by simp [hdirectory])
  obtain ⟨other, hother, rfl⟩ := exists_of_mem_directories htarget
  have hnames : ∀ name ∈ root ++ (components other).dropLast, IsName name := fun name hname => by
    rcases List.mem_append.mp hname with hname | hname
    · exact hway.isName (List.mem_append_left _ hname)
    · exact isName_of_mem_components (hvalid other hother) (List.dropLast_subset _ hname)
  have habove : components path <+: (components other).dropLast :=
    (List.prefix_append_right_inj root).mp (hway.prefix_of_pathOf hnames)
  obtain rfl := hseparate.above path hpath other hother (habove.trans (List.dropLast_prefix _))
  have hlength := habove.length_le
  have hpos : 0 < (components path).length := List.length_pos_of_ne_nil (components_ne_nil path)
  rw [List.length_dropLast] at hlength
  omega

/-- What is left at a place below the root, once the root has been emptied if that is wanted. -/
def leftover (disk : Disk) (path : String) (clean : Bool) (place : Place) : Option Entry :=
  if clean && disk.contains path then none else disk.entry? place

/-- Below the root there is what was left, or a directory through which the path of the root turns
back. -/
theorem entry?_prepareRoot {prepared : Disk} {clean : Bool}
    (h : prepareRoot disk path clean = (.ok root, prepared)) (file : String) :
    prepared.entry? (placeOf root file) = leftover disk path clean (placeOf root file) ∨
      ".." ∈ PathText.parts path ∧ leftover disk path clean (placeOf root file) = none ∧
        prepared.entry? (placeOf root file) = some .directory := by
  obtain ⟨hcanonical, start, hmade, hstart⟩ := exists_of_prepareRoot h
  have hgrows := grows_makeDirectory start path
  have hnew := newOnly_makeDirectory start path
  rw [hmade] at hgrows hnew
  have hleft : start.entry? (placeOf root file) =
      leftover disk path clean (placeOf root file) := by
    unfold leftover
    rcases hstart with ⟨hempties, hne, rfl⟩ | ⟨hempties, rfl⟩
    · rw [if_pos (Bool.and_eq_true_iff.mpr hempties), entry?_eraseTree hne,
        if_pos (show root <+: placeOf root file from List.prefix_append root _)]
    · rw [if_neg (mt Bool.and_eq_true_iff.mp hempties)]
  rw [← hleft]
  refine (hgrows.entry _).imp_right fun ⟨hnone, hdirectory⟩ => ⟨?_, hnone, hdirectory⟩
  by_contra hdown
  have hway : OnTheWay prepared.home path (placeOf root file) :=
    hgrows.home ▸ hnew _ hnone (by simp [hdirectory])
  have habove := hway.prefix_of_place hdown (canonical_eq_ok.mp hcanonical).1
  exact absurd habove.length_le (length_placeOf root file).not_ge

/-- What writing a tree leaves of a disk on which the root has been prepared. -/
structure Exported (tree : FileTree) (options : WriteOptions) (root : Place) (prepared : Disk)
    (count : Nat) (disk' : Disk) : Prop where
  counted : count = (due options prepared root tree.files.entries).length
  written : ∀ file ∈ due options prepared root tree.files.entries,
    disk'.entry? (placeOf root file.1) = some (.text file.2)
  spared : ∀ file ∈ tree.files.entries, file ∉ due options prepared root tree.files.entries →
    disk'.entry? (placeOf root file.1) = prepared.entry? (placeOf root file.1)

/-- A tree whose files are not in each other's way can be written in any order if it can be written
in one, and leaves the same on the disk: its files, and with overwriting off what stood at their
places once the root was prepared. That is what was left there, or a directory through which the
path of the root turns back. -/
theorem writeInOrder_agrees {order : List (String × String)} (hvalid : tree.Valid)
    (hseparate : tree.Separate) (horder : order.Perm tree.files.entries)
    (hrun : tree.writeInOrder order disk path options = (.ok written, disk')) :
    (∃ sequential, tree.writeTo disk path options = (.ok written, sequential) ∧
      Alike sequential disk') ∧
    ∃ root prepared, prepareRoot disk path options.clean = (.ok root, prepared) ∧
      Exported tree options root prepared written disk' ∧
      ∀ file ∈ tree.files.entries,
        prepared.entry? (placeOf root file.1) =
            leftover disk path options.clean (placeOf root file.1) ∨
          ".." ∈ PathText.parts path ∧
            leftover disk path options.clean (placeOf root file.1) = none ∧
            prepared.entry? (placeOf root file.1) = some .directory := by
  have hapart := hseparate.apart
  obtain ⟨root, prepared, hprepare, h⟩ := next_eq_ok hrun
  obtain ⟨_, made, hmade, h⟩ := next_eq_ok h
  obtain ⟨hwritable, rfl, rfl⟩ := (writeAll_eq_ok_iff (hapart.perm horder.symm)).mp h
  have hdue : (due options made root order).Perm (due options made root tree.files.entries) :=
    horder.filter _
  have hsame : ∀ file ∈ tree.files.entries,
      made.entry? (placeOf root file.1) = prepared.entry? (placeOf root file.1) := by
    intro file hfile
    have h := entry?_makeAll_directories hvalid hseparate (List.mem_map_of_mem hfile) prepared root
    rwa [hmade] at h
  have hdueSame : due options made root tree.files.entries =
      due options prepared root tree.files.entries :=
    List.filter_congr fun file hfile => by rw [spares, spares, hsame file hfile]
  have hapartDue : Apart (due options made root order) :=
    (hapart.perm horder.symm).filter _
  refine ⟨⟨withFiles options root made (due options made root tree.files.entries), ?_, ?_⟩,
    root, prepared, hprepare, ⟨?_, fun file hfile => ?_, fun file hfile hnot => ?_⟩,
    fun file _ => entry?_prepareRoot hprepare file.1⟩
  · refine next_eq_ok_iff.mpr ⟨root, prepared, hprepare, next_eq_ok_iff.mpr ⟨(), made, hmade, ?_⟩⟩
    refine (writeAll_eq_ok_iff hapart).mpr ⟨fun file hfile => ?_, ?_, rfl⟩
    · exact hwritable file (hdue.mem_iff.mpr hfile)
    · rw [hdue.length_eq]
  · exact alike_withFiles (hapart.filter _) hdue.symm
  · rw [Nat.zero_add, hdue.length_eq, hdueSame]
  · rw [← hdueSame] at hfile
    exact entry?_withFiles_of_mem hapartDue (hdue.mem_iff.mpr hfile)
  · rw [← hdueSame] at hnot
    rw [← hsame file hfile]
    exact entry?_withFiles_of_apart (hapart.perm horder.symm) (List.filter_subset_self _)
      (horder.mem_iff.mpr hfile) fun hmem => hnot (hdue.mem_iff.mp hmem)

/-- Two files in one directory. -/
def cardsTree : FileTree :=
  (addAll {} [("app/Card.kt", "class Card\n"), ("app/Panel.kt", "class Panel\n")]).1

/-- A disk on which one of the files stands already. -/
def cardDisk : Disk where
  entries := [(["out"], .directory), (["out", "app"], .directory),
    (["out", "app", "Card.kt"], .text "old\n")]

theorem writeInOrder_cardsTree :
    cardsTree.Valid ∧ cardsTree.Separate ∧
      cardsTree.files.entries.reverse.Perm cardsTree.files.entries ∧
      ∃ disk', cardsTree.writeInOrder cardsTree.files.entries.reverse cardDisk "out"
          { overwrite := false } = (.ok 1, disk') ∧
        ∃ sequential, cardsTree.writeTo cardDisk "out" { overwrite := false } =
          (.ok 1, sequential) ∧ Alike sequential disk' := by
  have hvalid : cardsTree.Valid := valid_addAll valid_empty _
  have hseparate : cardsTree.Separate := ⟨by decide, by decide⟩
  have horder := List.reverse_perm cardsTree.files.entries
  have hrun : (cardsTree.writeInOrder cardsTree.files.entries.reverse cardDisk "out"
      { overwrite := false }).1 = .ok 1 := by
    decide +kernel
  refine ⟨hvalid, hseparate, horder, _, Prod.ext hrun rfl, ?_⟩
  exact (writeInOrder_agrees hvalid hseparate horder (Prod.ext hrun rfl)).1

/-- A file at the root. -/
def cardTree : FileTree :=
  (addAll {} [("Card.kt", "class Card\n")]).1

/-- Where the path of the root turns back at the place of a file, a directory is made there, and the
file is not written although nothing stood at its place before. -/
theorem writeTo_turningBack : cardTree.Valid ∧ cardTree.Separate ∧
    Disk.entry? {} ["out", "Card.kt"] = none ∧
    ∃ disk', cardTree.writeTo {} "out/Card.kt/.." { overwrite := false } = (.ok 0, disk') ∧
      disk'.canonical "out/Card.kt/.." = .ok ["out"] ∧
      disk'.entry? (placeOf ["out"] "Card.kt") = some .directory := by
  refine ⟨valid_addAll valid_empty _, ⟨by decide, by decide⟩, rfl, ?_⟩
  exact ⟨_, Prod.ext (by decide +kernel) rfl, by decide +kernel, by decide +kernel⟩

end FileTree

end ComponentWiring

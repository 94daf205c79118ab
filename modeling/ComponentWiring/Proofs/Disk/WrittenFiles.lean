import ComponentWiring.Disk.Writing
import ComponentWiring.Proofs.Disk.FileTree
import ComponentWiring.Proofs.Disk.Places

/-!
What writing a tree of files leaves on the disk. Making the directories leaves the files alone, and
a file is written through a neighbour that is gone again (`entry?_of_writeFile`), so that at the end
the files of the tree stand under the root, and besides them only what stood on the disk before
(`writeTo_eq_ok`). What stood below the root is gone if the root is emptied, which it is only where
its path led to something at the start (`exists_of_prepareRoot`).
-/

namespace ComponentWiring.FileTree

open Disk Text

variable {disk disk' : Disk} {place root other : Place} {options : WriteOptions}

/-! ## Steps -/

section Steps

variable {α β : Type} {effect : Effect α} {step : Disk → α → Effect β}

theorem next_eq_ok {value : β} (h : effect.next step = (.ok value, disk')) :
    ∃ a mid, effect = (.ok a, mid) ∧ step mid a = (.ok value, disk') := by
  obtain ⟨_ | a, mid⟩ := effect
  · cases h
  · exact ⟨a, mid, rfl, h⟩

theorem grows_next (heffect : Grows disk effect.2) (hstep : ∀ mid a, Grows mid (step mid a).2) :
    Grows disk (effect.next step).2 := by
  obtain ⟨_ | a, mid⟩ := effect
  · exact heffect
  · exact heffect.trans (hstep mid a)

theorem attempt_eq_ok {path : String} {result : Except IoFault Disk} {done : Unit}
    (h : attempt disk path result = (.ok done, disk')) : result = .ok disk' := by
  cases result with
  | error fault => cases h
  | ok next =>
    cases h
    rfl

end Steps

/-! ## Directories -/

theorem grows_makeDirectory (disk : Disk) (path : String) :
    Grows disk (makeDirectory disk path).2 := by
  have h := grows_makeDirectories (path.length + 1) disk path
  unfold makeDirectory ensureDirectory
  split
  · next heq => rwa [heq] at h
  · next heq => rwa [heq] at h

theorem grows_makeAll (disk : Disk) (places : List Place) : Grows disk (makeAll disk places).2 := by
  induction places generalizing disk with
  | nil => exact .refl disk
  | cons place rest ih => exact grows_next (grows_makeDirectory disk _) fun mid _ => ih mid

/-! ## The root -/

/-- Whether the root is emptied: only if its path leads to something. -/
def Empties (disk : Disk) (root : String) (clean : Bool) : Prop :=
  clean = true ∧ disk.contains root = true

theorem exists_of_cleanRoot {path : String} {done : Unit}
    (h : cleanRoot disk path = (.ok done, disk')) :
    ∃ place, disk.canonical path = .ok place ∧ place ≠ [] ∧ disk' = disk.eraseTree place := by
  unfold cleanRoot at h
  split at h
  · cases h
  · next place hplace =>
    split_ifs at h with hempty
    · cases h
    · cases h
      exact ⟨place, hplace, by simpa using hempty, rfl⟩

/-- The root is the place of its path. It is made on the disk as it was, except that the root may
have been emptied. -/
theorem exists_of_prepareRoot {path : String} {clean : Bool}
    (h : prepareRoot disk path clean = (.ok root, disk')) :
    disk'.canonical path = .ok root ∧ ∃ start, makeDirectory start path = (.ok (), disk') ∧
      (Empties disk path clean ∧ root ≠ [] ∧ start = disk.eraseTree root ∨
        ¬Empties disk path clean ∧ start = disk) := by
  unfold prepareRoot at h
  split at h
  · cases h
  · obtain ⟨_, start, hcleaned, h⟩ := next_eq_ok h
    obtain ⟨_, mid, hmade, h⟩ := next_eq_ok h
    have hgrows : Grows start mid := by
      simpa only [hmade] using grows_makeDirectory start path
    cases hcanonical : mid.canonical path with
    | error fault =>
      rw [hcanonical] at h
      cases h
    | ok found =>
      rw [hcanonical] at h
      cases h
      refine ⟨hcanonical, start, hmade, ?_⟩
      split at hcleaned
      · next hempties =>
        obtain ⟨place, hplace, hne, rfl⟩ := exists_of_cleanRoot hcleaned
        have hhome : disk'.home = disk.home := hgrows.home
        obtain rfl : place = root := eq_of_place hhome (canonical_eq_ok.mp hplace).1
          (canonical_eq_ok.mp hcanonical).1
        exact .inl ⟨Bool.and_eq_true_iff.mp hempties, hne, rfl⟩
      · next hempties =>
        cases hcleaned
        exact .inr ⟨fun h => hempties (Bool.and_eq_true_iff.mpr h), rfl⟩

/-- Of the files only those below an emptied root are gone. -/
theorem entry?_of_prepareRoot {path : String} {clean : Bool} {entry : Entry}
    (h : prepareRoot disk path clean = (.ok root, disk')) (hfile : entry ≠ .directory) :
    disk'.entry? other = some entry ↔
      disk.entry? other = some entry ∧ ¬(Empties disk path clean ∧ root <+: other) := by
  obtain ⟨-, start, hmade, hstart⟩ := exists_of_prepareRoot h
  have hgrows : Grows start disk' := by
    simpa only [hmade] using grows_makeDirectory start path
  obtain ⟨hempties, hne, rfl⟩ | ⟨hempties, rfl⟩ := hstart
  · rw [hgrows.entry?_iff hfile, entry?_eraseTree hne]
    by_cases hbelow : root <+: other <;> simp [hempties, hbelow]
  · rw [hgrows.entry?_iff hfile]
    simp [hempties]

/-! ## Files -/

/-- The place of a file under a root. -/
def placeOf (root : Place) (path : String) : Place :=
  root ++ components path

/-- A place with the name of a neighbour through which a file is written. -/
def IsTemporary (place : Place) : Prop :=
  ".tmp".toList <:+ (place.getLast?.getD "").toList

theorem isTemporary_temporary (place : Place) : IsTemporary (temporary place) := by
  simp [IsTemporary, temporary]

theorem temporary_ne_nil (place : Place) : temporary place ≠ [] := by
  simp [temporary]

theorem temporary_injective (hplace : place ≠ []) (hother : other ≠ [])
    (h : temporary place = temporary other) : place = other := by
  obtain ⟨habove, hlast⟩ := List.append_inj' h rfl
  rw [List.singleton_inj, String.append_left_inj, List.getLast?_eq_some_getLast hplace,
    List.getLast?_eq_some_getLast hother, Option.getD_some, Option.getD_some] at hlast
  rw [← List.dropLast_append_getLast hplace, ← List.dropLast_append_getLast hother, habove, hlast]

theorem components_ne_nil (path : String) : components path ≠ [] := by
  simpa [components, PathText.parts] using segments_ne_nil path.toList

theorem components_injective : Function.Injective components := by
  intro path path' h
  have hsegments := List.map_injective_iff.mpr (fun _ _ => String.ofList_injective) h
  exact String.toList_inj.mp (segments_injective hsegments)

theorem placeOf_injective (root : Place) : Function.Injective (placeOf root) := fun _ _ h =>
  components_injective (List.append_cancel_left h)

theorem placeOf_ne_nil (root : Place) (path : String) : placeOf root path ≠ [] :=
  List.append_ne_nil_of_right_ne_nil root (components_ne_nil path)

/-- A source file is not the neighbour of a file. -/
theorem not_isTemporary_placeOf (root : Place) {path : String}
    (h : ".kt".toList <:+ path.toList) : ¬IsTemporary (placeOf root path) := by
  intro htemporary
  obtain ⟨stem, hpath⟩ := h
  obtain ⟨name, hlast, hsource⟩ :=
    exists_getLast?_segments stem (show '/' ∉ ".kt".toList by decide)
  have hname : (placeOf root path).getLast? = some (String.ofList name) := by
    rw [placeOf, List.getLast?_append_of_ne_nil _ (components_ne_nil path), components,
      PathText.parts, List.getLast?_map, ← hpath, hlast]
    rfl
  rw [IsTemporary, hname, Option.getD_some, String.toList_ofList (l := name)] at htemporary
  rcases List.suffix_or_suffix_of_suffix htemporary hsource with h | h <;>
    exact absurd h (by decide)

theorem length_placeOf (root : Place) (path : String) :
    root.length < (placeOf root path).length := by
  have hpos : 0 < (components path).length := List.length_pos_of_ne_nil (components_ne_nil path)
  rw [placeOf, List.length_append]
  omega

theorem length_temporary (h : place ≠ []) : (temporary place).length = place.length := by
  have hpos : 0 < place.length := List.length_pos_of_ne_nil h
  rw [temporary, List.length_append, List.length_dropLast, List.length_singleton]
  omega

/-- A file that is written stands at its place and its neighbour is gone; the rest of the disk is as
it was. -/
theorem entry?_of_writeFile {content : String} {wrote : Bool} (hatomic : options.atomic = true)
    (hoverwrite : options.overwrite = true) (hne : place ≠ []) (hfile : ¬IsTemporary place)
    (h : writeFile disk options place content = (.ok wrote, disk')) :
    Keeps disk disk' ∧ ∀ other, disk'.entry? other =
      if other = place then some (.text content)
      else if other = temporary place then none
      else disk.entry? other := by
  have haside : temporary place ≠ place := fun heq => hfile (heq ▸ isTemporary_temporary place)
  unfold writeFile at h
  simp only [hatomic, hoverwrite, Bool.not_true, Bool.false_and, Bool.false_eq_true, if_false,
    if_true] at h
  obtain ⟨_, mid, hwrite, h⟩ := next_eq_ok h
  obtain ⟨_, final, hrename, h⟩ := next_eq_ok h
  cases h
  obtain ⟨hfree, rfl⟩ := eq_of_write (attempt_eq_ok hwrite)
  obtain ⟨hfree', entry, hentry, rfl⟩ := exists_of_rename (attempt_eq_ok hrename)
  have hneAside := temporary_ne_nil place
  obtain rfl : .text content = entry := by
    rw [entry?_put hneAside, if_pos rfl] at hentry
    exact Option.some.inj hentry
  rw [entry?_put hneAside, if_neg haside.symm] at hfree'
  have hentries : ∀ other, Disk.entry? (((disk.put (temporary place) (.text content)).erase
      (temporary place)).put place (.text content)) other =
        if other = place then some (.text content)
        else if other = temporary place then none
        else disk.entry? other := by
    intro other
    rw [entry?_put hne, entry?_erase hneAside, entry?_put hneAside]
    split_ifs <;> rfl
  refine ⟨⟨rfl, fun directory hdirectory => ?_⟩, hentries⟩
  have hplace : directory ≠ place := fun heq => hfree' (heq ▸ hdirectory)
  have haside : directory ≠ temporary place := fun heq => hfree (heq ▸ hdirectory)
  rw [hentries, if_neg hplace, if_neg haside]
  exact hdirectory

/-- What stands on a disk after files were written under a root. -/
structure Wrote (root : Place) (files : List (String × String)) (disk disk' : Disk) : Prop where
  keeps : Keeps disk disk'
  written : ∀ file ∈ files, disk'.entry? (placeOf root file.1) = some (.text file.2)
  gone : ∀ file ∈ files, disk'.entry? (temporary (placeOf root file.1)) = none
  kept : ∀ other, (∀ file ∈ files, other ≠ placeOf root file.1 ∧
    other ≠ temporary (placeOf root file.1)) → disk'.entry? other = disk.entry? other

/-- Files with different paths are all written, if none is the neighbour of another one. -/
theorem wrote_of_writeAll {files : List (String × String)} {before written : Nat}
    (hatomic : options.atomic = true) (hoverwrite : options.overwrite = true)
    (hfiles : ∀ file ∈ files, ¬IsTemporary (placeOf root file.1))
    (hnodup : (files.map Prod.fst).Nodup)
    (h : writeAll options root before disk files = (.ok written, disk')) :
    Wrote root files disk disk' := by
  induction files generalizing before disk with
  | nil =>
    cases h
    exact ⟨.refl _, by simp, by simp, fun _ _ => rfl⟩
  | cons file files ih =>
    obtain ⟨path, content⟩ := file
    obtain ⟨hfile, hfiles⟩ := List.forall_mem_cons.mp hfiles
    obtain ⟨hnew, hnodup⟩ := List.nodup_cons.mp hnodup
    obtain ⟨wrote, mid, hwrite, h⟩ := next_eq_ok h
    have hne := placeOf_ne_nil root path
    obtain ⟨hkeeps, hentries⟩ := entry?_of_writeFile hatomic hoverwrite hne hfile hwrite
    have hrest := ih hfiles hnodup h
    have hother : ∀ file ∈ files, placeOf root path ≠ placeOf root file.1 := by
      intro file hmem heq
      exact hnew (List.mem_map.mpr ⟨file, hmem, (placeOf_injective root heq).symm⟩)
    refine ⟨hkeeps.trans hrest.keeps, List.forall_mem_cons.mpr ⟨?_, hrest.written⟩,
      List.forall_mem_cons.mpr ⟨?_, hrest.gone⟩, fun other hother => ?_⟩
    · rw [hrest.kept _ fun file hmem => ⟨hother file hmem, fun heq =>
        hfile (heq ▸ isTemporary_temporary _)⟩, hentries, if_pos rfl]
    · have haside : temporary (placeOf root path) ≠ placeOf root path := fun heq =>
        hfile (heq ▸ isTemporary_temporary _)
      rw [hrest.kept _ fun file hmem => ⟨fun heq => hfiles file hmem (heq ▸
        isTemporary_temporary _), fun heq => hother file hmem
          (temporary_injective hne (placeOf_ne_nil root _) heq)⟩, hentries, if_neg haside,
        if_pos rfl]
    · obtain ⟨⟨hplace, haside⟩, hother⟩ := List.forall_mem_cons.mp hother
      rw [hrest.kept other hother, hentries, if_neg hplace, if_neg haside]

/-! ## The tree -/

/-- What stands on a disk after files were written under the root that a path leads to. -/
structure Leaves (path : String) (clean : Bool) (files : List (String × String))
    (disk disk' : Disk) (root : Place) : Prop where
  canonical : disk'.canonical path = .ok root
  written : ∀ file ∈ files, disk'.entry? (placeOf root file.1) = some (.text file.2)
  /-- The other files are those from before that were neither emptied away nor in the place of a
  neighbour. -/
  kept : ∀ other entry, entry ≠ .directory → (∀ file ∈ files, other ≠ placeOf root file.1) →
    (disk'.entry? other = some entry ↔ disk.entry? other = some entry ∧
      ¬(Empties disk path clean ∧ root <+: other) ∧
      ∀ file ∈ files, other ≠ temporary (placeOf root file.1))

/-- Below the root there are files at the given places only. -/
def HoldsOnly (disk : Disk) (root : Place) (places : List Place) : Prop :=
  ∀ other entry, entry ≠ .directory → disk.entry? other = some entry → root <+: other →
    other ∈ places

namespace Leaves

variable {path : String} {clean : Bool} {files files' : List (String × String)}

theorem perm (h : Leaves path clean files disk disk' root) (hfiles : files.Perm files') :
    Leaves path clean files' disk disk' root where
  canonical := h.canonical
  written file hfile := h.written file (hfiles.mem_iff.mpr hfile)
  kept other entry hentry hother := by
    simpa only [hfiles.mem_iff] using h.kept other entry hentry fun file hfile =>
      hother file (hfiles.mem_iff.mp hfile)

/-- A root that is to be emptied holds nothing else afterwards just where its path led to something
before, or where there was nothing else to begin with. -/
theorem holdsOnly_iff (h : Leaves path true files disk disk' root) :
    HoldsOnly disk' root (files.map fun file => placeOf root file.1) ↔
      disk.contains path = true ∨ HoldsOnly disk root (files.flatMap fun file =>
        [placeOf root file.1, temporary (placeOf root file.1)]) := by
  constructor
  · intro honly
    refine or_iff_not_imp_left.mpr fun hmissing other entry hentry hother hbelow => ?_
    by_contra hnot
    simp only [List.mem_flatMap, List.mem_cons, List.not_mem_nil, or_false, not_exists, not_and,
      not_or] at hnot
    have hkept := (h.kept other entry hentry fun file hfile => (hnot file hfile).1).mpr
      ⟨hother, fun hempties => hmissing hempties.1.2, fun file hfile => (hnot file hfile).2⟩
    obtain ⟨file, hfile, rfl⟩ := List.mem_map.mp (honly other entry hentry hkept hbelow)
    exact (hnot file hfile).1 rfl
  · intro hbefore other entry hentry hother hbelow
    by_contra hnot
    have hplaces : ∀ file ∈ files, other ≠ placeOf root file.1 := fun file hfile heq =>
      hnot (List.mem_map.mpr ⟨file, hfile, heq.symm⟩)
    obtain ⟨hold, hspared, hasides⟩ := (h.kept other entry hentry hplaces).mp hother
    rcases hbefore with hcontains | honly
    · exact hspared ⟨⟨rfl, hcontains⟩, hbelow⟩
    · obtain ⟨file, hfile, hin⟩ := List.mem_flatMap.mp (honly other entry hentry hold hbelow)
      rcases List.mem_pair.mp hin with heq | heq
      exacts [hplaces file hfile heq, hasides file hfile heq]

end Leaves

/-- A tree of source files that is written stands under the root. -/
theorem writeTo_eq_ok {tree : FileTree} {path : String} {clean : Bool} {written : Nat}
    (hsources : ∀ file ∈ tree.files.entries, ".kt".toList <:+ file.1.toList)
    (h : tree.writeTo disk path { clean } = (.ok written, disk')) :
    ∃ root, Leaves path clean tree.files.entries disk disk' root := by
  obtain ⟨root, prepared, hprepare, h⟩ := next_eq_ok h
  obtain ⟨_, made, hmade, h⟩ := next_eq_ok h
  have hgrows : Grows prepared made := by
    simpa only [hmade] using grows_makeAll prepared (tree.directories root)
  have hwrote : Wrote root tree.files.entries made disk' := by
    refine wrote_of_writeAll rfl rfl (fun file hfile => ?_) ?_ h
    · exact not_isTemporary_placeOf root (hsources file hfile)
    · exact tree.files.pairwise_keys.imp String.ne_of_lt
  refine ⟨root, ?_, hwrote.written, fun other entry hentry hother => ?_⟩
  · obtain ⟨hplace, hsome⟩ := canonical_eq_ok.mp (exists_of_prepareRoot hprepare).1
    refine canonical_eq_ok.mpr ⟨hwrote.keeps.place_eq (hgrows.keeps.place_eq hplace), ?_⟩
    have hkept : disk'.entry? root = made.entry? root := hwrote.kept root fun file _ => by
      have hlength := length_placeOf root file.1
      have haside := length_temporary (placeOf_ne_nil root file.1)
      exact ⟨fun heq => absurd (congrArg List.length heq) (by omega),
        fun heq => absurd (congrArg List.length heq) (by omega)⟩
    rcases hgrows.entry root with heq | ⟨-, hdirectory⟩
    · rw [hkept, heq, hsome]
    · rw [hkept, hdirectory, Option.isSome_some]
  · by_cases haside : ∀ file ∈ tree.files.entries, other ≠ temporary (placeOf root file.1)
    · rw [hwrote.kept other fun file hfile => ⟨hother file hfile, haside file hfile⟩,
        hgrows.entry?_iff hentry, entry?_of_prepareRoot hprepare hentry, and_iff_left haside]
    · obtain ⟨file, hfile, rfl⟩ : ∃ file ∈ tree.files.entries,
          other = temporary (placeOf root file.1) := by
        simpa only [not_forall, ne_eq, not_not, exists_prop] using haside
      rw [hwrote.gone file hfile]
      simp only [reduceCtorEq, haside, and_false]

end ComponentWiring.FileTree

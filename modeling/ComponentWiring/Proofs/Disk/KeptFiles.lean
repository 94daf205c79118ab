import ComponentWiring.Proofs.Disk.WriteOrder

/-!
Which of the older files a run leaves alone. The only place that a file touches besides its own is
that of the neighbour through which it is written, and whatever stands there is lost. So an older
file that is no file of the tree stays, unless it has the name of such a neighbour and the file
beside it is written (`writeTo_keeps_iff`).

With overwriting off a file is written only where nothing stands. A neighbour may be a file of the
tree itself, and then its place is vacant by the time it is its turn, since a path comes before the
path of its neighbour; `Written` follows such chains.
-/

namespace ComponentWiring.FileTree

open Disk

variable {disk disk' : Disk} {root place other : Place} {options : WriteOptions}
  {paths : List String} {path name : String} {vacant vacant' : String → Prop}

/-! ## The files that are written -/

/-- The paths of the files that are written, of those that are gone through in the order of their
paths, where `vacant` says at which of them nothing stands. -/
inductive Written (options : WriteOptions) (vacant : String → Prop) (paths : List String) :
    String → Prop
  | replaced {path : String} (hpath : path ∈ paths) (hoverwrite : options.overwrite = true) :
    Written options vacant paths path
  | fresh {path : String} (hpath : path ∈ paths) (hvacant : vacant path) :
    Written options vacant paths path
  /-- A file at the place of a neighbour that another file was written through. -/
  | aside {path : String} (hpath : path ++ ".tmp" ∈ paths) (hatomic : options.atomic = true)
    (hwritten : Written options vacant paths path) : Written options vacant paths (path ++ ".tmp")

theorem lt_append_tmp (path : String) : path < path ++ ".tmp" := by
  have h : path.toList ++ [] < path.toList ++ ".tmp".toList :=
    List.append_left_lt (List.nil_lt_cons _ _)
  rwa [List.append_nil, ← String.toList_append] at h

namespace Written

theorem mem (h : Written options vacant paths name) : name ∈ paths := by
  cases h with
  | replaced hpath _ => exact hpath
  | fresh hpath _ => exact hpath
  | aside hpath _ _ => exact hpath

theorem cons (h : Written options vacant paths name) (path : String) :
    Written options vacant (path :: paths) name := by
  induction h with
  | replaced hpath hoverwrite => exact .replaced (List.mem_cons_of_mem path hpath) hoverwrite
  | fresh hpath hvacant => exact .fresh (List.mem_cons_of_mem path hpath) hvacant
  | aside hpath hatomic _ ih => exact .aside (List.mem_cons_of_mem path hpath) hatomic ih

/-- With overwriting off a file that is no neighbour is written only where nothing stands. -/
theorem vacant_of_ne (h : Written options vacant paths name)
    (hoverwrite : options.overwrite = false) (hname : ∀ path, name ≠ path ++ ".tmp") :
    vacant name := by
  cases h with
  | replaced _ hover => simp [hoverwrite] at hover
  | fresh _ hvacant => exact hvacant
  | aside _ _ _ => exact absurd rfl (hname _)

/-- A first file that stays as it is changes nothing about the others. -/
theorem cons_iff_of_spared (hfirst : ∀ other ∈ paths, path < other)
    (hoverwrite : options.overwrite = false) (hvacant : ¬vacant path) :
    Written options vacant (path :: paths) name ↔ Written options vacant paths name := by
  refine ⟨fun h => ?_, fun h => h.cons path⟩
  induction h with
  | replaced _ hover => simp [hoverwrite] at hover
  | @fresh name hname hempty =>
    rcases List.mem_cons.mp hname with rfl | hname
    · exact absurd hempty hvacant
    · exact .fresh hname hempty
  | @aside name hname hatomic _ ih =>
    rcases List.mem_cons.mp hname with heq | hname
    · -- The file whose neighbour this is comes before its neighbour.
      have hlt := hfirst name ih.mem
      rw [← heq] at hlt
      exact absurd hlt (String.lt_asymm (lt_append_tmp name))
    · exact .aside hname hatomic ih

/-- A first file that is written leaves the place of its neighbour vacant. -/
theorem cons_iff_of_written (hfirst : ∀ other ∈ paths, path < other)
    (hwritten : options.overwrite = true ∨ vacant path)
    (hvacant : ∀ other ∈ paths, vacant' other ↔
      vacant other ∨ options.atomic = true ∧ other = path ++ ".tmp") :
    Written options vacant (path :: paths) name ↔
      name = path ∨ Written options vacant' paths name := by
  have hmine : Written options vacant (path :: paths) path :=
    hwritten.elim (.replaced List.mem_cons_self) (.fresh List.mem_cons_self)
  constructor
  · intro h
    induction h with
    | @replaced name hname hoverwrite =>
      exact (List.mem_cons.mp hname).imp_right fun hname => .replaced hname hoverwrite
    | @fresh name hname hempty =>
      exact (List.mem_cons.mp hname).imp_right fun hname =>
        .fresh hname ((hvacant name hname).mpr (.inl hempty))
    | @aside name hname hatomic _ ih =>
      refine (List.mem_cons.mp hname).imp_right fun hlater => ?_
      rcases ih with heq | ih
      · exact .fresh hlater ((hvacant _ hlater).mpr (.inr ⟨hatomic, by rw [heq]⟩))
      · exact .aside hlater hatomic ih
  · rintro (rfl | h)
    · exact hmine
    · induction h with
      | replaced hname hoverwrite => exact .replaced (List.mem_cons_of_mem path hname) hoverwrite
      | @fresh name hname hempty =>
        rcases (hvacant name hname).mp hempty with hempty | ⟨hatomic, rfl⟩
        · exact .fresh (List.mem_cons_of_mem path hname) hempty
        · exact .aside (List.mem_cons_of_mem path hname) hatomic hmine
      | aside hname hatomic _ ih => exact .aside (List.mem_cons_of_mem path hname) hatomic ih

end Written

/-! ## What is lost -/

/-- A place that a file is written through. -/
def Displaced (options : WriteOptions) (vacant : String → Prop) (paths : List String)
    (root other : Place) : Prop :=
  options.atomic = true ∧
    ∃ path, Written options vacant paths path ∧ other = temporary (placeOf root path)

theorem displaced_cons_iff_of_spared (hfirst : ∀ other ∈ paths, path < other)
    (hoverwrite : options.overwrite = false) (hvacant : ¬vacant path) :
    Displaced options vacant (path :: paths) root other ↔
      Displaced options vacant paths root other := by
  simp only [Displaced, Written.cons_iff_of_spared hfirst hoverwrite hvacant]

theorem displaced_cons_iff_of_written (hfirst : ∀ other ∈ paths, path < other)
    (hwritten : options.overwrite = true ∨ vacant path)
    (hvacant : ∀ other ∈ paths, vacant' other ↔
      vacant other ∨ options.atomic = true ∧ other = path ++ ".tmp") :
    Displaced options vacant (path :: paths) root other ↔
      options.atomic = true ∧ other = temporary (placeOf root path) ∨
        Displaced options vacant' paths root other := by
  simp only [Displaced, Written.cons_iff_of_written hfirst hwritten hvacant, or_and_right,
    exists_or, exists_eq_left, and_or_left]

/-- A file that is written stands at its place, and nothing where it was staged. -/
theorem entry?_withFiles_singleton (file : String × String) :
    Disk.entry? (withFiles options root disk [file]) other =
      if other = placeOf root file.1 then some (.text file.2)
      else if other = staged options (placeOf root file.1) then none
      else disk.entry? other := by
  have hplaces : [file].flatMap (touched options root) =
      [staged options (placeOf root file.1), placeOf root file.1] := List.flatMap_singleton ..
  by_cases hother : other ∈ [file].flatMap (touched options root)
  · have hne : other ≠ [] := ne_of_mem_of_not_mem hother (nil_not_mem_touched [file])
    rw [withFiles, entry?_replace_of_mem hother hne, List.map_singleton, List.lookup_cons]
    rw [hplaces, List.mem_pair] at hother
    by_cases hplace : other = placeOf root file.1
    · simp [hplace]
    · have hstaged := hother.resolve_right hplace
      rw [if_neg hplace, if_pos hstaged, beq_eq_false_iff_ne.mpr hplace]
      rfl
  · rw [entry?_withFiles_of_not_mem hother]
    rw [hplaces, List.mem_pair, not_or] at hother
    rw [if_neg hother.2, if_neg hother.1]

theorem entry?_withFiles_eq_none_iff {file : String × String} (hne : name ≠ file.1) :
    Disk.entry? (withFiles options root disk [file]) (placeOf root name) = none ↔
      disk.entry? (placeOf root name) = none ∨
        options.atomic = true ∧ name = file.1 ++ ".tmp" := by
  have hplace : placeOf root name ≠ placeOf root file.1 := (placeOf_injective root).ne hne
  rw [entry?_withFiles_singleton, if_neg hplace, staged]
  cases options.atomic with
  | true =>
    simp only [if_true, temporary_placeOf, (placeOf_injective root).eq_iff, true_and]
    by_cases haside : name = file.1 ++ ".tmp" <;> simp [haside]
  | false => simp [hplace]

/-- What is left at a place: nothing if a file is written through it, and otherwise what stood there
before. -/
structure LeftAt (options : WriteOptions) (vacant : String → Prop) (paths : List String)
    (root other : Place) (disk disk' : Disk) : Prop where
  lost : Displaced options vacant paths root other → disk'.entry? other = none
  kept : ¬Displaced options vacant paths root other → disk'.entry? other = disk.entry? other

theorem LeftAt.cons_of_spared (h : LeftAt options vacant paths root other disk disk')
    (hfirst : ∀ other ∈ paths, path < other) (hoverwrite : options.overwrite = false)
    (hvacant : ¬vacant path) :
    LeftAt options vacant (path :: paths) root other disk disk' := by
  have hiff : Displaced options vacant (path :: paths) root other ↔ _ :=
    displaced_cons_iff_of_spared hfirst hoverwrite hvacant
  exact ⟨fun hdisplaced => h.lost (hiff.mp hdisplaced),
    fun hspared => h.kept fun hdisplaced => hspared (hiff.mpr hdisplaced)⟩

/-- A first file is written, and then the others. -/
theorem LeftAt.cons_of_written {file : String × String}
    (h : LeftAt options vacant' paths root other (withFiles options root disk [file]) disk')
    (hfirst : ∀ other ∈ paths, file.1 < other)
    (hwritten : options.overwrite = true ∨ vacant file.1)
    (hvacant : ∀ other ∈ paths, vacant' other ↔
      vacant other ∨ options.atomic = true ∧ other = file.1 ++ ".tmp")
    (hplace : other ≠ placeOf root file.1) :
    LeftAt options vacant (file.1 :: paths) root other disk disk' := by
  have hiff : Displaced options vacant (file.1 :: paths) root other ↔ _ :=
    displaced_cons_iff_of_written hfirst hwritten hvacant
  have hkept := h.kept
  rw [entry?_withFiles_singleton, if_neg hplace] at hkept
  refine ⟨fun hdisplaced => ?_, fun hspared => ?_⟩
  · by_contra hstands
    rcases hiff.mp hdisplaced with ⟨hatomic, haside⟩ | hlater
    · have hgone := hkept fun hlater => hstands (h.lost hlater)
      rw [staged, if_pos hatomic, if_pos haside] at hgone
      exact hstands hgone
    · exact hstands (h.lost hlater)
  · obtain ⟨haside, hlater⟩ := not_or.mp (hiff.not.mp hspared)
    refine (hkept hlater).trans (if_neg fun heq => ?_)
    unfold staged at heq
    split_ifs at heq with hatomic
    exacts [haside ⟨hatomic, heq⟩, hplace heq]

/-- Writing files one after the other leaves the directories alone, and it leaves alone what stands
at other places, unless a file is written through it. -/
theorem leftAt_of_writeAll {files : List (String × String)} {before written : Nat}
    (hsorted : files.Pairwise fun a b => a.1 < b.1)
    (hrun : writeAll options root before disk files = (.ok written, disk')) :
    Keeps disk disk' ∧ Keeps disk' disk ∧
      ∀ other, (∀ file ∈ files, other ≠ placeOf root file.1) →
        LeftAt options (fun path => disk.entry? (placeOf root path) = none) (files.map Prod.fst)
          root other disk disk' := by
  induction files generalizing before disk with
  | nil =>
    cases hrun
    refine ⟨.refl _, .refl _, fun other _ => ⟨?_, fun _ => rfl⟩⟩
    rintro ⟨-, path, hwritten, -⟩
    exact absurd hwritten.mem List.not_mem_nil
  | cons file files ih =>
    obtain ⟨hfirst, hsorted⟩ := List.pairwise_cons.mp hsorted
    replace hfirst : ∀ path ∈ files.map Prod.fst, file.1 < path := List.forall_mem_map.mpr hfirst
    rw [writeAll_cons] at hrun
    obtain ⟨wrote, mid, hwrite, hrest⟩ := next_eq_ok hrun
    rw [writeFile_file_eq_ok_iff] at hwrite
    split_ifs at hwrite with hspares
    · obtain ⟨-, rfl⟩ := hwrite
      obtain ⟨hkeeps, hkeeps', hleft⟩ := ih hsorted hrest
      obtain ⟨hoverwrite, hstands⟩ : options.overwrite = false ∧
          ¬mid.entry? (placeOf root file.1) = none := by
        simpa [spares, Option.isSome_iff_ne_none] using hspares
      refine ⟨hkeeps, hkeeps', fun other hother => ?_⟩
      obtain ⟨-, hother⟩ := List.forall_mem_cons.mp hother
      exact (hleft other hother).cons_of_spared hfirst hoverwrite hstands
    · obtain ⟨hwritable, -, rfl⟩ := hwrite
      obtain ⟨hkeeps, hkeeps', hleft⟩ := ih hsorted hrest
      obtain ⟨hwrite, hwrite'⟩ := keeps_withFiles hwritable
      have hmine : options.overwrite = true ∨ disk.entry? (placeOf root file.1) = none := by
        cases hoverwrite : options.overwrite with
        | true => exact .inl rfl
        | false => simpa [spares, hoverwrite] using hspares
      refine ⟨hwrite.trans hkeeps, hkeeps'.trans hwrite', fun other hother => ?_⟩
      obtain ⟨hplace, hother⟩ := List.forall_mem_cons.mp hother
      refine (hleft other hother).cons_of_written hfirst hmine (fun name hname => ?_) hplace
      exact entry?_withFiles_eq_none_iff (String.ne_of_lt (hfirst name hname)).symm

/-! ## What a run keeps -/

/-- Nothing stood at the place of a file, and no directory has been made there. -/
def Vacant (disk disk' : Disk) (root : Place) (name : String) : Prop :=
  disk.entry? (placeOf root name) = none ∧ disk'.entry? (placeOf root name) ≠ some .directory

/-- On the disk with all directories nothing stands at a place where a file is then written, just
where nothing stood there before and no directory stands there in the end. -/
theorem vacant_iff {made : Disk} (hgrows : Grows disk made)
    (hkeeps : Keeps made disk') (hkeeps' : Keeps disk' made) :
    Vacant disk disk' root name ↔ made.entry? (placeOf root name) = none := by
  constructor
  · rintro ⟨hnone, hfile⟩
    rcases hgrows.entry (placeOf root name) with heq | ⟨-, hdirectory⟩
    · rw [heq, hnone]
    · exact absurd (hkeeps.directory _ hdirectory) hfile
  · intro hnone
    rcases hgrows.entry (placeOf root name) with heq | ⟨-, hdirectory⟩
    · refine ⟨heq ▸ hnone, fun hdirectory => ?_⟩
      rw [hkeeps'.directory _ hdirectory] at hnone
      cases hnone
    · rw [hdirectory] at hnone
      cases hnone

/-- The root stands above all files and their neighbours. -/
theorem root_kept {made : Disk} (hplaces : ∀ other, (∀ name ∈ paths, other ≠ placeOf root name) →
    ¬Displaced options vacant paths root other → disk'.entry? other = made.entry? other) :
    disk'.entry? root = made.entry? root := by
  refine hplaces root (fun name _ heq => ?_) ?_
  · have hlength := length_placeOf root name
    rw [← heq] at hlength
    exact Nat.lt_irrefl _ hlength
  · rintro ⟨-, name, -, heq⟩
    have hlength := length_placeOf root name
    rw [← length_temporary (placeOf_ne_nil root name), ← heq] at hlength
    exact Nat.lt_irrefl _ hlength

/-- A run that does not empty the root keeps every older file that is no file of the tree, except
for those that stand at the neighbour of a file that is written through it. Those are lost. -/
theorem writeTo_keeps_iff {tree : FileTree} {written : Nat} (hclean : options.clean = false)
    (hrun : tree.writeTo disk path options = (.ok written, disk')) :
    ∃ root, disk'.canonical path = .ok root ∧
      ∀ other entry, entry ≠ .directory → disk.entry? other = some entry →
        (∀ name ∈ tree.files.keys, other ≠ placeOf root name) →
        (disk'.entry? other = some entry ↔
          ¬Displaced options (Vacant disk disk' root) tree.files.keys root other) ∧
        (Displaced options (Vacant disk disk' root) tree.files.keys root other →
          disk'.entry? other = none) := by
  obtain ⟨root, prepared, hprepare, hrest⟩ := next_eq_ok hrun
  obtain ⟨_, made, hmade, hwrite⟩ := next_eq_ok hrest
  obtain ⟨hcanonical, start, hstart, hsame⟩ := exists_of_prepareRoot hprepare
  obtain rfl : start = disk := by
    rcases hsame with ⟨hempties, -⟩ | ⟨-, hsame⟩
    · exact absurd (hclean.symm.trans hempties.1) Bool.false_ne_true
    · exact hsame
  have hprepared : Grows start prepared := by
    simpa only [hstart] using grows_makeDirectory start path
  have hdirectories : Grows prepared made := by
    simpa only [hmade] using grows_makeAll prepared (tree.directories root)
  have hgrows := hprepared.trans hdirectories
  obtain ⟨hkeeps, hkeeps', hleft⟩ := leftAt_of_writeAll tree.files.ordered hwrite
  have hvacant : (fun name => made.entry? (placeOf root name) = none) = Vacant start disk' root :=
    funext fun name => propext (vacant_iff hgrows hkeeps hkeeps').symm
  rw [hvacant] at hleft
  have hplaces (other : Place) (hother : ∀ name ∈ tree.files.keys, other ≠ placeOf root name) :=
    hleft other fun file hfile => hother file.1 (List.mem_map_of_mem hfile)
  refine ⟨root, ?_, fun other entry hfile hentry hother => ?_⟩
  · obtain ⟨hplace, hsome⟩ := canonical_eq_ok.mp hcanonical
    refine canonical_eq_ok.mpr ⟨hkeeps.place_eq (hdirectories.keeps.place_eq hplace), ?_⟩
    rw [root_kept fun other hother => (hplaces other hother).kept]
    rcases hdirectories.entry root with heq | ⟨-, hdirectory⟩
    · rw [heq, hsome]
    · rw [hdirectory, Option.isSome_some]
  · obtain ⟨hlost, hstays⟩ := hplaces other hother
    have hmid : made.entry? other = some entry := (hgrows.entry?_iff hfile).mpr hentry
    refine ⟨⟨fun hthere hdisplaced => ?_, fun hspared => (hstays hspared).trans hmid⟩, hlost⟩
    rw [hlost hdisplaced] at hthere
    cases hthere

/-- A disk with one of two files, and with notes that have the names of their neighbours. -/
def notedDisk : Disk where
  entries := [(["out"], .directory), (["out", "app"], .directory),
    (["out", "app", "Card.kt"], .text "old\n"),
    (["out", "app", "Card.kt.tmp"], .text "notes on cards\n"),
    (["out", "app", "Panel.kt.tmp"], .text "notes on panels\n")]

/-- The notes beside the file that is there stay, and those beside the new file are lost. -/
theorem writeTo_keeps_notes : ({ overwrite := false } : WriteOptions).clean = false ∧
    ∃ disk', cardsTree.writeTo notedDisk "out" { overwrite := false } = (.ok 1, disk') ∧
      disk'.entry? ["out", "app", "Card.kt.tmp"] = some (.text "notes on cards\n") ∧
      disk'.entry? ["out", "app", "Panel.kt.tmp"] = none := by
  have hrun : (cardsTree.writeTo notedDisk "out" { overwrite := false }).1 = .ok 1 := by
    decide +kernel
  refine ⟨rfl, _, Prod.ext hrun rfl, ?_⟩
  obtain ⟨root, hroot, hkept⟩ := writeTo_keeps_iff rfl (Prod.ext hrun rfl)
  obtain rfl : root = ["out"] := by
    have hout : (cardsTree.writeTo notedDisk "out" { overwrite := false }).2.canonical "out" =
        .ok ["out"] := by
      decide +kernel
    exact Except.ok.inj (hroot.symm.trans hout)
  have hcards : ¬Displaced { overwrite := false }
      (Vacant notedDisk (cardsTree.writeTo notedDisk "out" { overwrite := false }).2 ["out"])
      cardsTree.files.keys ["out"] ["out", "app", "Card.kt.tmp"] := by
    rintro ⟨-, name, hwritten, haside⟩
    have hcard : temporary (placeOf ["out"] name) = temporary (placeOf ["out"] "app/Card.kt") :=
      haside.symm
    obtain rfl : name = "app/Card.kt" := placeOf_injective ["out"]
      (temporary_injective (placeOf_ne_nil _ _) (placeOf_ne_nil _ _) hcard)
    have hvacant := hwritten.vacant_of_ne rfl fun path heq => by
      have hlast := congrArg (fun name => name.toList.getLast?) heq
      simp at hlast
    exact absurd hvacant.1 (by decide)
  refine ⟨(hkept _ _ (by decide) (by decide) (by decide)).1.mpr hcards,
    (hkept _ (.text "notes on panels\n") (by decide) (by decide) (by decide)).2
      ⟨rfl, "app/Panel.kt", .fresh (by decide) ⟨by decide, by decide +kernel⟩, by decide⟩⟩

/-- A file is lost that is no file of the tree, although nothing is to be overwritten. -/
theorem writeTo_loses_draft :
    let draftDisk : Disk := { entries := [(["out"], .directory),
      (["out", "Card.kt.tmp"], .text "draft\n")] }
    ∃ disk', cardTree.writeTo draftDisk "out" { overwrite := false } = (.ok 1, disk') ∧
      draftDisk.entry? ["out", "Card.kt.tmp"] = some (.text "draft\n") ∧
      (∀ name ∈ cardTree.files.keys, ["out", "Card.kt.tmp"] ≠ placeOf ["out"] name) ∧
      disk'.canonical "out" = .ok ["out"] ∧
      disk'.entry? ["out", "Card.kt.tmp"] = none :=
  ⟨_, Prod.ext (by decide +kernel) rfl, by decide, by decide, by decide +kernel, by decide +kernel⟩

end ComponentWiring.FileTree

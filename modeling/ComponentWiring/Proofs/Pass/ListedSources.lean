import Mathlib.Data.List.Pairwise
import ComponentWiring.Proofs.Pass.UnitOrder
import ComponentWiring.Proofs.Pass.WrittenClasses

/-!
Source files and the manifest that lists what they declare. A pass over the manifest generates what
a pass over the files generates, if the manifest still leads to the texts of the files and no two
classes share a name (`runManifest_manifestOf`). The declarations are listed as they are read, so
what has to be compared are the two hierarchies: merged file by file on one side, and on the other
filled with the merged classes and then with the declarations, which adds nothing that is not there
(`hierarchy_manifestOf`).
-/

namespace ComponentWiring

open Text Source

/-! ## Tables -/

namespace Keyed

variable {β : Type} {key : String} {value : β}

/-- A table that is filled under different names keeps every pair. -/
theorem get?_ofList_of_nodup {pairs : List (String × β)} (hnodup : (pairs.map Prod.fst).Nodup)
    (hmem : (key, value) ∈ pairs) : (ofList pairs).get? key = some value := by
  obtain ⟨found, hfound⟩ := Option.isSome_iff_exists.mp (contains_ofList_of_mem hmem)
  have hsame : (key, found) = (key, value) :=
    List.inj_on_of_nodup_map hnodup (mem_of_get?_ofList hfound) hmem rfl
  rw [hfound, (Prod.mk.inj hsame).2]

theorem insert_eq_self {table : Keyed β} (h : table.get? key = some value) :
    table.insert key value = table :=
  ext_get? fun other => by
    rw [get?_insert]
    split
    · next heq => rw [← heq, h]
    · rfl

end Keyed

theorem findSome?_eq_of_mem {α β : Type} {f : α → Option β} {l : List α} {a : α} (ha : a ∈ l)
    (hone : ∀ b ∈ l, (f b).isSome = true → b = a) : l.findSome? f = f a := by
  induction l with
  | nil => cases ha
  | cons b l ih =>
    rw [List.findSome?_cons]
    cases hb : f b with
    | some value => rw [← hone b List.mem_cons_self (by simp [hb]), hb]
    | none =>
      rcases List.mem_cons.mp ha with rfl | ha
      · refine (List.findSome?_eq_none_iff.mpr fun c hc => ?_).trans hb.symm
        rw [← Option.not_isSome_iff_eq_none]
        intro hsome
        rw [hone c (List.mem_cons_of_mem _ hc) hsome, hb] at hsome
        cases hsome
      · exact ih ha fun c hc => hone c (List.mem_cons_of_mem _ hc)

namespace Pass

variable (pass : Pass)

/-! ## The classes of source files -/

/-- The classes of a source file, in order. Companion objects are not classes of their own. -/
def classesIn (source : SourceText) : List ClassFindings :=
  ((classHeads (pass.context source).masked).filter fun found =>
    !found.value.has "companion").map (pass.context source).findings

/-- The qualified names of the classes of a source file, in order. -/
def classNames (source : SourceText) : List String :=
  (pass.classesIn source).map (·.qualifiedName)

variable {pass} {source : SourceText} {sources : List SourceText} {d : Declaration}

theorem byName_findings (pass : Pass) (source : SourceText) :
    (pass.findings source).hierarchy.byName = Keyed.ofList ((pass.classesIn source).map fun c =>
      (c.qualifiedName, ⟨c.supertypes, (pass.context source).imports.stars⟩)) :=
  byName_hierarchy_ofFindings _ _

theorem mem_classNames_of_indexes {name : String} (h : pass.Indexes source name) :
    name ∈ pass.classNames source := by
  obtain ⟨known, hknown⟩ := Option.isSome_iff_exists.mp h
  rw [byName_findings] at hknown
  obtain ⟨c, hc, heq⟩ := List.mem_map.mp (Keyed.mem_of_get?_ofList hknown)
  cases heq
  exact List.mem_map_of_mem hc

/-- Where all class names differ, no name stands for classes of different files. -/
theorem IndexedApart.of_nodup (h : (sources.flatMap pass.classNames).Nodup) :
    pass.IndexedApart sources := by
  intro u hu v hv name hname hname'
  by_contra hne
  have : Std.Symm (Function.onFun List.Disjoint pass.classNames) :=
    ⟨fun _ _ hdisjoint _ hv hu => hdisjoint hu hv⟩
  exact (List.nodup_flatMap.mp h).2.forall hu hv hne (mem_classNames_of_indexes hname)
    (mem_classNames_of_indexes hname')

/-! ## Declarations in the hierarchy -/

/-- A declaration has the qualified name, the supertypes and the star imports of a class of its
file. -/
theorem exists_mem_classesIn_of_mem_declarations (h : d ∈ (pass.findings source).declarations) :
    ∃ c ∈ pass.classesIn source, c.qualifiedName = d.qualifiedName ∧
      c.supertypes = d.supertypes ∧ (pass.context source).imports.stars = d.starImports := by
  obtain ⟨before, found, after, hread⟩ := mem_declarations_iff.mp h
  have hmem : found ∈ (classHeads (pass.context source).masked).filter fun found =>
      !found.value.has "companion" :=
    List.mem_filter.mpr ⟨hread.mem_classHeads, by simp [hread.ownClass]⟩
  refine ⟨_, List.mem_map_of_mem hmem, (qualifiedName_of_outcome hread.declares).symm, ?_⟩
  obtain ⟨parameters, -, rfl⟩ := hread.exists_eq
  exact ⟨rfl, rfl⟩

/-- The hierarchy of a file knows what a declaration in it says, if its classes have different
names. -/
theorem find?_hierarchy_of_mem_declarations (hnodup : (pass.classNames source).Nodup)
    (h : d ∈ (pass.findings source).declarations) :
    (pass.findings source).hierarchy.find? d.qualifiedName =
      some ⟨d.supertypes, d.starImports⟩ := by
  obtain ⟨c, hc, hname, hsupertypes, hstars⟩ := exists_mem_classesIn_of_mem_declarations h
  rw [ClassHierarchy.find?, byName_findings]
  refine Keyed.get?_ofList_of_nodup ?_ (List.mem_map.mpr ⟨c, hc, ?_⟩)
  · rw [List.map_map]
    exact hnodup
  · rw [hname, hsupertypes, hstars]

/-- So does the hierarchy of several files, if all their classes have different names. -/
theorem find?_hierarchyIn_of_mem_declarations (hnodup : (sources.flatMap pass.classNames).Nodup)
    (hsource : source ∈ sources) (h : d ∈ (pass.findings source).declarations) :
    (pass.hierarchyIn sources).find? d.qualifiedName = some ⟨d.supertypes, d.starImports⟩ := by
  rw [find?_hierarchyIn]
  refine (findSome?_eq_of_mem (List.mem_reverse.mpr hsource) fun other hother hknown => ?_).trans
    (find?_hierarchy_of_mem_declarations ((List.nodup_flatMap.mp hnodup).1 source hsource) h)
  exact IndexedApart.of_nodup hnodup other (List.mem_reverse.mp hother) source hsource _ hknown
    (indexes_of_mem_declarations h)

/-! ## The manifest -/

/-- The manifest that lists the declarations and properties of source files in order, and all their
classes. -/
def manifestOf (pass : Pass) (sources : List SourceText) : Manifest where
  declarations := sources.flatMap fun source => (pass.findings source).declarations
  properties := sources.flatMap fun source => (pass.findings source).properties
  classes := (pass.hierarchyIn sources).byName.entries.map fun (name, known) =>
    ⟨name, known.supertypes, known.starImports⟩

end Pass

namespace ClassHierarchy

/-- Recording declarations that are known already changes nothing. -/
theorem foldl_insertDeclaration_eq_self {known : ClassHierarchy} {declarations : List Declaration}
    (h : ∀ d ∈ declarations, known.find? d.qualifiedName = some ⟨d.supertypes, d.starImports⟩) :
    declarations.foldl insertDeclaration known = known := by
  induction declarations with
  | nil => rfl
  | cons d declarations ih =>
    have hsame : known.insertDeclaration d = known :=
      congrArg mk (Keyed.insert_eq_self (h d List.mem_cons_self))
    rw [List.foldl_cons, hsame, ih fun e he => h e (List.mem_cons_of_mem _ he)]

end ClassHierarchy

namespace Pass

variable {pass : Pass} {source : SourceText} {sources : List SourceText} {d : Declaration}

theorem foldl_classes_manifestOf (pass : Pass) (sources : List SourceText) :
    (pass.manifestOf sources).classes.foldl
      (fun hierarchy c => hierarchy.insert c.name c.supertypes c.starImports)
      ClassHierarchy.empty = pass.hierarchyIn sources := by
  rw [manifestOf, List.foldl_map]
  refine congrArg ClassHierarchy.mk (?_ : _ = (pass.hierarchyIn sources).byName)
  refine Eq.trans ?_ (Keyed.ofList_entries (pass.hierarchyIn sources).byName)
  exact (List.foldl_hom ClassHierarchy.byName fun _ _ => rfl).symm

/-- The manifest that lists source files leads to their hierarchy. -/
theorem hierarchy_manifestOf (hnodup : (sources.flatMap pass.classNames).Nodup) :
    (pass.manifestOf sources).hierarchy = pass.hierarchyIn sources := by
  rw [Manifest.hierarchy, foldl_classes_manifestOf]
  refine ClassHierarchy.foldl_insertDeclaration_eq_self fun d hd => ?_
  obtain ⟨source, hsource, hd⟩ := List.mem_flatMap.mp hd
  exact find?_hierarchyIn_of_mem_declarations hnodup hsource hd

/-! ## Texts -/

/-- A declaration says in which file it stands. -/
theorem file_of_mem_declarations (h : d ∈ (pass.findings source).declarations) :
    d.location.file = source.path := by
  obtain ⟨before, found, after, hread⟩ := mem_declarations_iff.mp h
  obtain ⟨parameters, -, rfl⟩ := hread.exists_eq
  rfl

/-- A declaration of a manifest whose file can still be read comes with the text of the file. -/
theorem pendingOf_eq {disk : Disk} {base : String} (hpath : source.path ≠ "")
    (hread : ∀ path, Manifest.sourcePath? base d = some path → disk.read path = .ok source.text)
    (h : d ∈ (pass.findings source).declarations) :
    pendingOf disk base d = (⟨d, some source.text⟩, []) := by
  have hnamed : d.location.file.isEmpty = false := by
    rw [file_of_mem_declarations h, ← Bool.not_eq_true, String.isEmpty_iff]
    exact hpath
  have hsource : Manifest.sourcePath? base d = some (PathText.join base d.location.file) := by
    rw [Manifest.sourcePath?, hnamed]
    rfl
  unfold pendingOf
  simp only [hsource, hread _ hsource]

/-- So does every declaration of a manifest that lists source files. -/
theorem map_pendingOf_manifestOf {disk : Disk} {base : String}
    (hpaths : ∀ source ∈ sources, source.path ≠ "")
    (hread : ∀ source ∈ sources, ∀ d ∈ (pass.findings source).declarations, ∀ path,
      Manifest.sourcePath? base d = some path → disk.read path = .ok source.text) :
    (pass.manifestOf sources).declarations.map (pendingOf disk base) =
      (sources.flatMap pass.pendingIn).map fun p => (p, []) := by
  rw [manifestOf, List.map_flatMap, List.map_flatMap]
  refine List.flatMap_congr fun source hsource => ?_
  rw [pendingIn, List.map_map]
  exact List.map_congr_left fun d hd =>
    pendingOf_eq (hpaths source hsource) (hread source hsource d hd) hd

/-! ## The two passes -/

/-- What becomes of declarations that are read already does not depend on the convention. -/
theorem classResults_convention (pass : Pass) (other : Convention) (hierarchy : ClassHierarchy)
    (earlier : List String) (pending : List Pending) :
    ({ pass with convention := other }).classResults hierarchy earlier pending =
      pass.classResults hierarchy earlier pending := by
  induction pending generalizing earlier with
  | nil => rfl
  | cons p rest ih => rw [classResults, classResults, ih]; rfl

/-- A pass over the manifest that lists source files generates what a pass over the files generates,
and reports the same, except for what is reported about the reading of the files. All class names
have to differ, and the manifest has to lead to the texts of the files. -/
theorem runManifest_manifestOf (pass : Pass) (other : Convention) (disk : Disk) (base : String)
    (hpaths : ∀ source ∈ sources, source.path ≠ "")
    (hnodup : (sources.flatMap pass.classNames).Nodup)
    (hread : ∀ source ∈ sources, ∀ d ∈ (pass.findings source).declarations, ∀ path,
      Manifest.sourcePath? base d = some path → disk.read path = .ok source.text) :
    ∃ out, ({ pass with convention := other }).runManifest disk (pass.manifestOf sources) base =
        .ok out ∧
      pass.runSources sources = .ok ⟨out.artifacts,
        (sources.flatMap fun source => (pass.findings source).diagnostics) ++
          out.diagnostics⟩ := by
  have hnone : ((sources.flatMap pass.pendingIn).map fun p => (p, ([] : Diagnostics))).flatMap
      (·.2) = [] := by simp [List.flatMap_map]
  refine ⟨(ClassResult.gathered (pass.classResults (pass.hierarchyIn sources) []
    (sources.flatMap pass.pendingIn))).append (BindingFile.allGenerated
      (sources.flatMap fun source => (pass.findings source).properties)), ?_, ?_⟩
  · unfold runManifest
    rw [generate_eq_ok, map_pendingOf_manifestOf hpaths hread, hierarchy_manifestOf hnodup,
      classResults_convention, hnone, List.map_map, Function.comp_def, List.map_id']
    rfl
  · rw [runSources_eq_ok]
    simp [Generated.append]

/-- A disk on which the two files stand below a directory. -/
def twoFilesDisk : Disk where
  entries :=
    [(["src"], .directory), (["src", "app"], .directory),
      (["src", "app", "Badge.kt"], .text badgeFile.text),
      (["src", "app", "Panel.kt"], .text panelFile.text)]

theorem runManifest_manifestOf_twoFiles :
    ∃ out, ({ convention := .markToExpose } : Pass).runManifest twoFilesDisk
        (({} : Pass).manifestOf [badgeFile, panelFile]) "src" = .ok out ∧
      ({} : Pass).runSources [badgeFile, panelFile] = .ok ⟨out.artifacts,
        ([badgeFile, panelFile].flatMap fun source =>
          (({} : Pass).findings source).diagnostics) ++ out.diagnostics⟩ := by
  have hfiles : ∀ source ∈ [badgeFile, panelFile],
      ∀ d ∈ (({} : Pass).findings source).declarations,
        (Manifest.sourcePath? "src" d).all fun path =>
          (twoFilesDisk.read path).toOption == some source.text := by decide +kernel
  refine runManifest_manifestOf {} _ twoFilesDisk "src" (by decide) (by decide +kernel)
    fun source hsource d hd path hpath => ?_
  have hread := hfiles source hsource d hd
  rw [hpath] at hread
  cases htext : twoFilesDisk.read path with
  | ok text => simpa [htext, Except.toOption] using hread
  | error fault => simp [htext, Except.toOption] at hread

end Pass

end ComponentWiring

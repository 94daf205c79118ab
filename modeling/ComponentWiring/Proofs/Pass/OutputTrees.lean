import ComponentWiring.Proofs.Disk.FileTree
import ComponentWiring.Proofs.Pass.BoundProperties
import ComponentWiring.Proofs.Pass.WrittenClasses
import ComponentWiring.Proofs.Source.ClassHeads
import ComponentWiring.Proofs.Source.ImportTable

/-!
The files of a pass as a tree. No two files of a pass have the same package and name: the files of
classes are named after classes with different qualified names, those of bound properties after
different owners, and the kind of a file shows in its name (`nodup_artifacts`). So the tree holds
every file, unless it is refused for its path (`collect_runSources`). It is refused where the
package has an empty part, such as `a..b`, which a package line may well declare; and one refused
file is enough for the tree not to be built.
-/

namespace ComponentWiring

open Text Source

/-! ## The names of files -/

/-- The files that are named after a class. -/
inductive FileKind
  /-- A factory, possibly with a builder function. -/
  | factory
  /-- A builder function without a factory. -/
  | builder
  /-- Functions that bind properties. -/
  | bindings
  deriving DecidableEq, Repr

/-- What stands behind the name of the class. -/
def FileKind.ending : FileKind → String
  | factory => "Factory.kt"
  | builder => "Dsl.kt"
  | bindings => "SignalExtensions.kt"

/-- The name of a file tells the class and the kind: the letter before the extension differs. -/
theorem FileKind.append_ending_inj {name name' : String} {kind kind' : FileKind}
    (h : name ++ kind.ending = name' ++ kind'.ending) : name = name' ∧ kind = kind' := by
  have hkind : kind = kind' := by
    have hletter := congrArg (fun file => file.toList.reverse[3]?) h
    cases kind <;> cases kind' <;> first | rfl | simp [ending] at hletter
  subst hkind
  exact ⟨by simpa using h, rfl⟩

/-- The file of a kind that belongs to a class. -/
structure Artifact.BelongsTo (a : Artifact) (package name : String) (kind : FileKind) : Prop where
  package : a.package = package
  fileName : a.fileName = name ++ kind.ending

namespace Artifact.BelongsTo

variable {a b : Artifact} {package package' name name' : String} {kind kind' : FileKind}

/-- Files at the same place belong to the same class and are of the same kind. -/
theorem unique (ha : a.BelongsTo package name kind) (hb : b.BelongsTo package' name' kind')
    (hpackage : a.package = b.package) (hname : a.fileName = b.fileName) :
    package = package' ∧ name = name' ∧ kind = kind' := by
  refine ⟨ha.package ▸ hb.package ▸ hpackage, FileKind.append_ending_inj ?_⟩
  rw [← ha.fileName, hname, hb.fileName]

theorem named (h : a.BelongsTo package name kind)
    (hpackage : ∀ c ∈ package.toList, isDottedChar c = true) (hname : IsName name.toList) :
    a.Named where
  package := h.package ▸ hpackage
  fileName := by
    have hending : ∃ stem : List Char, (∀ c ∈ stem, isWordChar c = true) ∧
        kind.ending.toList = stem ++ ".kt".toList := by
      cases kind
      exacts [⟨"Factory".toList, List.all_eq_true.mp (by decide), rfl⟩,
        ⟨"Dsl".toList, List.all_eq_true.mp (by decide), rfl⟩,
        ⟨"SignalExtensions".toList, List.all_eq_true.mp (by decide), rfl⟩]
    obtain ⟨stem, hstem, hending⟩ := hending
    refine ⟨name.toList ++ stem, fun c hc => ?_, ?_⟩
    · exact (List.mem_append.mp hc).elim (hname.2 c) (hstem c)
    · rw [h.fileName, String.toList_append, hending, List.append_assoc]

/-- The path of a generated file ends like that of a source file. -/
theorem suffix_relativePath (h : a.BelongsTo package name kind) :
    ".kt".toList <:+ a.relativePath.toList := by
  have hending : ".kt".toList <:+ kind.ending.toList := by cases kind <;> decide
  have hname : ".kt".toList <:+ a.fileName.toList := by
    rw [h.fileName, String.toList_append]
    exact hending.trans (List.suffix_append _ _)
  unfold Artifact.relativePath
  split
  · exact hname
  · simp only [String.toList_append]
    exact hname.trans (List.suffix_append _ _)

end Artifact.BelongsTo

/-! ## The names of classes -/

namespace Pass

variable {pass : Pass} {source : SourceText}

theorem isName_of_mem_declarations {d : Declaration}
    (h : d ∈ (pass.findings source).declarations) :
    d.package = (pass.findings source).package ∧ IsName d.name.toList := by
  obtain ⟨before, found, after, hat⟩ := mem_declarations_iff.mp h
  obtain ⟨parameters, -, rfl⟩ := hat.exists_eq
  exact ⟨rfl, isName_of_mem_classHeads hat.mem_classHeads⟩

theorem isName_of_mem_properties {p : Property} (h : p ∈ (pass.findings source).properties) :
    p.package = (pass.findings source).package ∧ IsName p.owner.toList := by
  obtain ⟨c, hc, hp⟩ := List.mem_flatMap.mp h
  obtain ⟨found, hfound, rfl⟩ := List.mem_map.mp hc
  obtain ⟨hpackage, howner⟩ := owner_of_mem_properties hp
  exact ⟨hpackage, howner ▸ isName_of_mem_classHeads (List.mem_filter.mp hfound).1⟩

theorem isDottedChar_of_mem_package {c : Char} (h : c ∈ (pass.findings source).package.toList) :
    isDottedChar c = true :=
  Imports.isDottedChar_of_mem_package h

end Pass

/-! ## The files of classes -/

namespace Pass

variable {pass : Pass} {hierarchy : ClassHierarchy} {earlier : List String}
  {pending : List Pending} {a : Artifact}

/-- The file of a class is a factory or a builder function, and the class is new. -/
theorem belongsTo_of_resultOf {p : Pending} (h : pass.resultOf hierarchy earlier p = .file a) :
    p.declaration.qualifiedName ∉ earlier ∧ ∃ kind : FileKind, kind ≠ .bindings ∧
      a.BelongsTo p.declaration.package p.declaration.name kind := by
  obtain ⟨hnew, hpackage, hname, -⟩ := (settles_resultOf pass hierarchy earlier p).file a h
  refine ⟨hnew, ?_⟩
  split at hname
  · refine ⟨.factory, by decide, hpackage, ?_⟩
    rw [hname, Declaration.factoryName, String.append_assoc]
    rfl
  · exact ⟨.builder, by decide, hpackage, hname⟩

theorem exists_of_mem_classResults
    (h : a ∈ (pass.classResults hierarchy earlier pending).filterMap ClassResult.artifact?) :
    ∃ p ∈ pending, p.declaration.qualifiedName ∉ earlier ∧ ∃ kind : FileKind, kind ≠ .bindings ∧
      a.BelongsTo p.declaration.package p.declaration.name kind := by
  obtain ⟨result, hresult, ha⟩ := List.mem_filterMap.mp h
  obtain ⟨p, hp, earlier', hsub, rfl⟩ := exists_resultOf_of_mem hresult
  obtain ⟨hnew, hkind⟩ := belongsTo_of_resultOf (ClassResult.artifact?_eq_some.mp ha)
  exact ⟨p, hp, fun hmem => hnew (hsub hmem), hkind⟩

/-- The first declaration of a name gets a file if it passes the tests on names and a factory is
wanted. -/
theorem exists_mem_classResults_of_valid {i : Nat} {p : Pending} (hp : pending[i]? = some p)
    (hnew : p.declaration.qualifiedName ∉ Pending.names (pending.take i))
    (hvalid : FactoryFile.Valid p.declaration (hierarchy.isComponent p.declaration) pass.mode
      pass.policy) (hfactory : FactoryFile.hasFactory p.declaration pass.policy = true) :
    ∃ a ∈ (pass.classResults hierarchy [] pending).filterMap ClassResult.artifact?,
      a.package = p.declaration.package := by
  have hmem : pass.resultOf hierarchy (Pending.names (pending.take i)) p ∈
      pass.classResults hierarchy [] pending := List.mem_of_getElem? (getElem?_classResults hp)
  have hsettles := settles_resultOf pass hierarchy (Pending.names (pending.take i)) p
  cases hresult : pass.resultOf hierarchy (Pending.names (pending.take i)) p with
  | file a =>
    exact ⟨a, List.mem_filterMap.mpr ⟨_, hmem, by rw [hresult]; rfl⟩,
      (hsettles.file a hresult).2.1⟩
  | report diagnostic =>
    obtain ⟨refusal, -, ⟨hseen, -⟩ | ⟨-, hrefused⟩⟩ := hsettles.report _ hresult
    · exact absurd hseen hnew
    · obtain ⟨_, hplan, -⟩ := Declaration.exists_of_artifact?_eq_error hrefused
      exact absurd (p.sameSignature_withDefaults.symm.valid hvalid)
        (FactoryFile.exists_plan_eq_error_iff.mp ⟨_, hplan⟩)
  | nothing =>
    obtain ⟨-, -, hinjected, -, hpolicy⟩ := hsettles.nothing.mp hresult
    rw [FactoryFile.hasFactory_eq_false_iff.mpr ⟨hinjected, hpolicy⟩] at hfactory
    cases hfactory

/-- The files of classes have different places, since only the first declaration of a name gets
one. -/
theorem nodup_classResults :
    (((pass.classResults hierarchy earlier pending).filterMap ClassResult.artifact?).map
      fun a => (a.package, a.fileName)).Nodup := by
  induction pending generalizing earlier with
  | nil => exact List.nodup_nil
  | cons p rest ih =>
    rw [classResults, List.filterMap_cons]
    cases hresult : pass.resultOf hierarchy earlier p with
    | file a =>
      refine List.nodup_cons.mpr ⟨fun hmem => ?_, ih⟩
      obtain ⟨b, hb, hplace⟩ := List.mem_map.mp hmem
      obtain ⟨q, -, hnew, _, -, hofQ⟩ := exists_of_mem_classResults hb
      obtain ⟨-, _, -, hofP⟩ := belongsTo_of_resultOf hresult
      obtain ⟨hpackage, hname⟩ := Prod.mk.inj hplace
      obtain ⟨hpackage, hname, -⟩ := hofQ.unique hofP hpackage hname
      have hsame : q.declaration.qualifiedName = p.declaration.qualifiedName :=
        congrArg₂ qualify hpackage hname
      exact hnew (hsame ▸ List.mem_cons_self)
    | report diagnostic => exact ih
    | nothing => exact ih

end Pass

/-! ## The files of bound properties -/

namespace BindingFile

variable {properties : List Property} {a : Artifact}

theorem belongsTo_laidOut (file : BindingFile) :
    (laidOut file).BelongsTo file.package file.owner .bindings :=
  ⟨rfl, rfl⟩

theorem exists_of_mem_allGenerated (h : a ∈ (allGenerated properties).artifacts) :
    ∃ p ∈ properties, a.BelongsTo p.package p.owner .bindings := by
  rw [allGenerated_eq] at h
  obtain ⟨file, hfile, rfl⟩ := List.mem_map.mp h
  obtain ⟨p, hp, -, hkey⟩ :=
    ((classFiles_bind properties).classes _).mp (List.mem_map_of_mem hfile)
  obtain ⟨hpackage, howner⟩ := Prod.mk.inj hkey
  exact ⟨p, hp, hpackage ▸ howner ▸ belongsTo_laidOut file⟩

/-- A marked property that cannot be bound is reported. -/
theorem mem_diagnostics_allGenerated {p : Property} {fault : PropertyFault} (hp : p ∈ properties)
    (h : p.bindable = .error fault) :
    fault.diagnostic p ∈ (allGenerated properties).diagnostics :=
  (diagnostics_allGenerated_perm properties).mem_iff.mpr
    (List.mem_filterMap.mpr ⟨p, hp, by rw [h]⟩)

/-- The files of bound properties have different places, since every owner gets at most one. -/
theorem nodup_allGenerated (properties : List Property) :
    ((allGenerated properties).artifacts.map fun a => (a.package, a.fileName)).Nodup := by
  rw [allGenerated_eq, List.map_map]
  have hordered := List.pairwise_map.mp (classFiles_bind properties).ordered
  refine List.pairwise_map.mpr (hordered.imp fun {file file'} hlt hsame => ?_)
  obtain ⟨hpackage, hname⟩ := Prod.mk.inj hsame
  obtain ⟨hpackage, howner, -⟩ :=
    (belongsTo_laidOut file).unique (belongsTo_laidOut file') hpackage hname
  exact ne_of_compareOwners_eq_lt hlt (Prod.ext hpackage howner)

end BindingFile

/-! ## All files -/

namespace Pass

variable (pass : Pass) (sources : List SourceText)

/-- The files of classes. -/
def classArtifacts : List Artifact :=
  (pass.classResults (pass.hierarchyIn sources) [] (sources.flatMap pass.pendingIn)).filterMap
    ClassResult.artifact?

/-- The files of bound properties. -/
def bindingArtifacts : List Artifact :=
  (BindingFile.allGenerated
    (sources.flatMap fun source => (pass.findings source).properties)).artifacts

theorem exists_runSources_eq_ok :
    ∃ diagnostics, pass.runSources sources =
      .ok ⟨pass.classArtifacts sources ++ pass.bindingArtifacts sources, diagnostics⟩ :=
  ⟨_, runSources_eq_ok pass sources⟩

variable {pass sources} {a : Artifact}

theorem exists_of_mem_classArtifacts (h : a ∈ pass.classArtifacts sources) :
    ∃ source ∈ sources, ∃ name, IsName name.toList ∧ ∃ kind : FileKind, kind ≠ .bindings ∧
      a.BelongsTo (pass.findings source).package name kind := by
  obtain ⟨p, hp, -, kind, hkind, hof⟩ := exists_of_mem_classResults h
  obtain ⟨source, hsource, hp⟩ := List.mem_flatMap.mp hp
  obtain ⟨d, hd, rfl⟩ := List.mem_map.mp hp
  obtain ⟨hpackage, hname⟩ := isName_of_mem_declarations hd
  exact ⟨source, hsource, d.name, hname, kind, hkind, hpackage ▸ hof⟩

theorem exists_of_mem_bindingArtifacts (h : a ∈ pass.bindingArtifacts sources) :
    ∃ source ∈ sources, ∃ name, IsName name.toList ∧
      a.BelongsTo (pass.findings source).package name .bindings := by
  obtain ⟨p, hp, hof⟩ := BindingFile.exists_of_mem_allGenerated h
  obtain ⟨source, hsource, hp⟩ := List.mem_flatMap.mp hp
  obtain ⟨hpackage, hname⟩ := isName_of_mem_properties hp
  exact ⟨source, hsource, p.owner, hname, hpackage ▸ hof⟩

/-- Every file stands in the package of a source file. -/
theorem exists_package_of_mem_artifacts
    (h : a ∈ pass.classArtifacts sources ++ pass.bindingArtifacts sources) :
    ∃ source ∈ sources, a.package = (pass.findings source).package ∧ a.Named := by
  rcases List.mem_append.mp h with h | h
  · obtain ⟨source, hsource, name, hname, kind, -, hof⟩ := exists_of_mem_classArtifacts h
    exact ⟨source, hsource, hof.package, hof.named (fun _ => isDottedChar_of_mem_package) hname⟩
  · obtain ⟨source, hsource, name, hname, hof⟩ := exists_of_mem_bindingArtifacts h
    exact ⟨source, hsource, hof.package, hof.named (fun _ => isDottedChar_of_mem_package) hname⟩

/-- No two files have the same place. -/
theorem nodup_artifacts (pass : Pass) (sources : List SourceText) :
    ((pass.classArtifacts sources ++ pass.bindingArtifacts sources).map
      fun a => (a.package, a.fileName)).Nodup := by
  rw [List.map_append, List.nodup_append']
  refine ⟨nodup_classResults, BindingFile.nodup_allGenerated _, fun place hclass hbinding => ?_⟩
  obtain ⟨a, ha, rfl⟩ := List.mem_map.mp hclass
  obtain ⟨b, hb, hsame⟩ := List.mem_map.mp hbinding
  obtain ⟨hpackage, hname⟩ := Prod.mk.inj hsame
  obtain ⟨_, -, _, -, kind, hkind, hofA⟩ := exists_of_mem_classArtifacts ha
  obtain ⟨_, -, _, -, hofB⟩ := exists_of_mem_bindingArtifacts hb
  exact hkind (hofA.unique hofB hpackage.symm hname.symm).2.2

/-- A pass returns files that are collected just where their packages are packages, whatever the
source files are. -/
theorem collect_runSources (pass : Pass) (sources : List SourceText) :
    ∃ out tree faults, pass.runSources sources = .ok out ∧
      FileTree.collect out.artifacts = (tree, faults) ∧
      tree.files.entries.Perm ((out.artifacts.filter fun a => IsPackage a.package).map
        fun a => (a.relativePath, a.content)) ∧
      (faults = [] ↔ ∀ a ∈ out.artifacts, IsPackage a.package) ∧
      ∀ a ∈ out.artifacts, ∃ source ∈ sources, a.package = (pass.findings source).package := by
  obtain ⟨diagnostics, hrun⟩ := exists_runSources_eq_ok pass sources
  obtain ⟨tree, faults, hcollect, hentries, hfaults⟩ :=
    FileTree.collect_eq (fun a ha => (exists_package_of_mem_artifacts ha).elim
      fun _ h => h.2.2) (nodup_artifacts pass sources)
  refine ⟨_, tree, faults, hrun, hcollect, hentries, hfaults, fun a ha => ?_⟩
  obtain ⟨source, hsource, hpackage, -⟩ := exists_package_of_mem_artifacts ha
  exact ⟨source, hsource, hpackage⟩

/-! ### Trees -/

/-- Files never collide: if the package of every source file is a package, then every file of a pass
is collected, at a path of its own. -/
theorem ofArtifacts_runSources (pass : Pass) {sources : List SourceText}
    (hpackages : ∀ source ∈ sources, IsPackage (pass.findings source).package) :
    ∃ out tree, pass.runSources sources = .ok out ∧
      FileTree.collect out.artifacts = (tree, []) ∧
      FileTree.ofArtifacts out.artifacts = .ok tree ∧
      tree.files.entries.Perm (out.artifacts.map fun a => (a.relativePath, a.content)) := by
  obtain ⟨out, tree, faults, hrun, hcollect, hentries, hfaults, hsources⟩ :=
    collect_runSources pass sources
  have hgood : ∀ a ∈ out.artifacts, IsPackage a.package := fun a ha => by
    obtain ⟨source, hsource, hpackage⟩ := hsources a ha
    exact hpackage ▸ hpackages source hsource
  obtain rfl := hfaults.mpr hgood
  refine ⟨out, tree, hrun, hcollect, by rw [FileTree.ofArtifacts, hcollect], ?_⟩
  rwa [List.filter_eq_self.mpr (by simpa using hgood)] at hentries

/-- Two classes with bound properties, one of which has a name that ends like that of a factory. -/
def gaugeFile : SourceText :=
  ⟨"app/Gauge.kt", "package app.ui\n\n@GenDsl\nclass Gauge(@ExposeSignal val level: " ++
    "BindableSignal<Int>)\n\nclass GaugeFactory(@ExposeSignal val made: BindableSignal<Int>)\n"⟩

theorem ofArtifacts_runSources_gauge :
    ∃ out tree, ({} : Pass).runSources [badgeFile, gaugeFile] = .ok out ∧
      FileTree.collect out.artifacts = (tree, []) ∧
      FileTree.ofArtifacts out.artifacts = .ok tree ∧
      tree.files.entries.Perm (out.artifacts.map fun a => (a.relativePath, a.content)) :=
  ofArtifacts_runSources {} (by decide +kernel)

/-- With one more source file, whatever its text, every file is collected whose package is a
package; but the tree is built only where that holds of all files. -/
theorem ofArtifacts_runSources_append (pass : Pass) (sources : List SourceText)
    (unit : SourceText) :
    ∃ out tree faults, pass.runSources (sources ++ [unit]) = .ok out ∧
      FileTree.collect out.artifacts = (tree, faults) ∧
      tree.files.entries.Perm ((out.artifacts.filter fun a => IsPackage a.package).map
        fun a => (a.relativePath, a.content)) ∧
      ((∃ tree, FileTree.ofArtifacts out.artifacts = .ok tree) ↔
        ∀ a ∈ out.artifacts, IsPackage a.package) := by
  obtain ⟨out, tree, faults, hrun, hcollect, hentries, hfaults, -⟩ :=
    collect_runSources pass (sources ++ [unit])
  refine ⟨out, tree, faults, hrun, hcollect, hentries, ?_⟩
  rw [FileTree.ofArtifacts_eq_ok_iff, hcollect, hfaults]

/-- A file in a proper package. -/
def cardFile : SourceText :=
  ⟨"src/Card.kt", "package app\n\n@GenDsl\nclass Card\n"⟩

/-- A file whose package has an empty part. -/
def splitPackageFile : SourceText :=
  ⟨"src/Panel.kt", "package app..ui\n\n@GenDsl\nclass Panel\n"⟩

theorem exists_tree_cardFile : ∃ out tree, ({} : Pass).runSources [cardFile] = .ok out ∧
    FileTree.ofArtifacts out.artifacts = .ok tree := by
  obtain ⟨out, tree, faults, hrun, hcollect, -, hfaults, hsources⟩ :=
    collect_runSources {} [cardFile]
  have hpackage : (({} : Pass).findings cardFile).package = "app" := by decide
  have hgood : ∀ a ∈ out.artifacts, IsPackage a.package := fun a ha => by
    obtain ⟨source, hsource, hin⟩ := hsources a ha
    obtain rfl := List.mem_singleton.mp hsource
    rw [hin, hpackage]
    decide
  obtain rfl := hfaults.mpr hgood
  exact ⟨out, tree, hrun, by rw [FileTree.ofArtifacts, hcollect]⟩

theorem exists_artifact_splitPackageFile :
    ∃ a ∈ ({} : Pass).classArtifacts ([cardFile] ++ [splitPackageFile]),
      a.package = "app..ui" := by
  have hview : (([cardFile] ++ [splitPackageFile]).flatMap ({} : Pass).pendingIn).map
      (fun p => (p.declaration.name, p.declaration.package, p.declaration.parameters.length)) =
        [("Card", "app", 0), ("Panel", "app..ui", 0)] := by decide
  obtain ⟨p, others, hpending, hp, hview⟩ := List.map_eq_cons_iff.mp hview
  obtain ⟨q, others, rfl, hq, hview⟩ := List.map_eq_cons_iff.mp hview
  obtain rfl := List.map_eq_nil_iff.mp hview
  simp only [Prod.mk.injEq, List.length_eq_zero_iff] at hp hq
  obtain ⟨hname, hpackage, hparameters⟩ := hq
  have hnew : q.declaration.qualifiedName ∉ Pending.names [p] := by
    simp [Pending.names, Declaration.qualifiedName, hp, hname, hpackage, qualify]
  have hvalid (exportable : Bool) :
      FactoryFile.Valid q.declaration exportable default default :=
    { names := ⟨by rw [hname]; decide, by simp [hparameters], by simp [hparameters]⟩
      free := fun _ => by simp [FactoryFile.FreeOfReserved, Declaration.exposed, hparameters] }
  have hartifact : ∃ a ∈ ({} : Pass).classArtifacts ([cardFile] ++ [splitPackageFile]),
      a.package = q.declaration.package :=
    exists_mem_classResults_of_valid (i := 1) (by rw [hpending]; rfl) (by rwa [hpending])
      (hvalid _) (by simp [FactoryFile.hasFactory, default])
  rwa [hpackage] at hartifact

/-- One file in a package with an empty part keeps the tree of all files from being built. -/
theorem splitPackageFile_blocks :
    (∃ out tree, ({} : Pass).runSources [cardFile] = .ok out ∧
      FileTree.ofArtifacts out.artifacts = .ok tree) ∧
    ∃ out, ({} : Pass).runSources ([cardFile] ++ [splitPackageFile]) = .ok out ∧
      ∀ tree, FileTree.ofArtifacts out.artifacts ≠ .ok tree := by
  refine ⟨exists_tree_cardFile, ?_⟩
  obtain ⟨diagnostics, hrun⟩ := exists_runSources_eq_ok {} ([cardFile] ++ [splitPackageFile])
  obtain ⟨out, tree, faults, hrun', hcollect, -, hfaults, -⟩ :=
    collect_runSources {} ([cardFile] ++ [splitPackageFile])
  obtain rfl := Except.ok.inj (hrun'.symm.trans hrun)
  refine ⟨_, hrun, fun tree' htree => ?_⟩
  have hempty := FileTree.ofArtifacts_eq_ok_iff.mp ⟨tree', htree⟩
  rw [hcollect] at hempty
  obtain ⟨a, ha, hin⟩ := exists_artifact_splitPackageFile
  have hgood := hfaults.mp hempty a (List.mem_append_left _ ha)
  rw [hin] at hgood
  exact absurd hgood (by decide)

end Pass

end ComponentWiring

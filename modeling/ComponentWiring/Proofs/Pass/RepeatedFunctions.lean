import ComponentWiring.Proofs.Pass.OutputTrees

/-!
Properties that are bound twice. Of several declarations of one class only the first gets a file,
but the marked properties of all of them go into the file of bound properties, which has a function
for each. So a file has two functions for one property just where two marked properties that can be
bound have the same package, class name and name (`bindingFiles_bindOnce_iff`), be it that the class
is declared in two source files or that two nested classes have one name.
-/

namespace ComponentWiring

/-! ## The functions of a file -/

namespace BindingFile

variable {properties : List Property}

/-- No property of a class has two functions in the file. -/
def BindsOnce (file : BindingFile) : Prop :=
  (file.functions.map fun f => (f.owner, f.property)).Nodup

/-- The accepted properties are those that can be bound. -/
theorem map_fst_accepted (properties : List Property) :
    (accepted properties).map Prod.fst = properties.filter (·.bindable.isOk) := by
  rw [accepted, List.map_filterMap, ← List.filterMap_eq_filter]
  congr 1
  funext p
  cases hbindable : p.bindable <;>
    simp [Option.guard, Except.toOption, Except.isOk, Except.toBool, hbindable]

/-- The file of a class has a function for each property of the class that can be bound. -/
theorem map_functions_classFile (properties : List Property) (key : String × String) :
    (classFile key (accepted (ofOwner properties key))).functions.map
      (fun f => (f.owner, f.property)) =
    (ofOwner (properties.filter (·.bindable.isOk)) key).map fun p => (key.2, p.name) := by
  rw [ofOwner_filter_bindable, ← map_fst_accepted, List.map_map, classFile, List.map_map]
  rfl

/-- A file has no two functions for one property just where the properties of its class that can be
bound have different names. -/
theorem bindsOnce_classFile_iff (key : String × String) :
    (classFile key (accepted (ofOwner properties key))).BindsOnce ↔
      ((ofOwner (properties.filter (·.bindable.isOk)) key).map
        fun p => (p.package, p.owner, p.name)).Nodup := by
  have hfull : (ofOwner (properties.filter (·.bindable.isOk)) key).map
      (fun p => (p.package, p.owner, p.name)) =
        ((ofOwner (properties.filter (·.bindable.isOk)) key).map fun p => (key.2, p.name)).map
          (Prod.mk key.1) := by
    rw [List.map_map]
    refine List.map_congr_left fun p hp => ?_
    obtain ⟨-, rfl⟩ := mem_ofOwner_iff.mp hp
    rfl
  rw [BindsOnce, map_functions_classFile, hfull,
    List.nodup_map_iff (Prod.mk_right_injective key.1)]

/-- Grouping by class does not tell properties apart that have the same package, class name and
name, and no others. -/
theorem classFiles_bindOnce_iff (properties : List Property) :
    (∀ file ∈ classFiles properties, file.BindsOnce) ↔
      ((properties.filter (·.bindable.isOk)).map
        fun p => (p.package, p.owner, p.name)).Nodup := by
  have hgroups := (flatMap_ofOwner_perm (properties.filter (·.bindable.isOk))).map
    fun p => (p.package, p.owner, p.name)
  rw [classFiles, List.forall_mem_map, ← hgroups.nodup_iff, List.map_flatMap, List.nodup_flatMap,
    and_iff_left]
  · exact forall₂_congr fun key _ => bindsOnce_classFile_iff key
  · refine (pairwise_owners _).imp fun {key other} hlt => ?_
    refine List.disjoint_left.mpr fun name hname hother => ne_of_compareOwners_eq_lt hlt ?_
    obtain ⟨p, hp, rfl⟩ := List.mem_map.mp hname
    obtain ⟨q, hq, heq⟩ := List.mem_map.mp hother
    obtain ⟨hpackage, howner, -⟩ : q.package = p.package ∧ q.owner = p.owner ∧ q.name = p.name := by
      simpa using heq
    rw [← (mem_ofOwner_iff.mp hp).2, ← (mem_ofOwner_iff.mp hq).2, hpackage, howner]

end BindingFile

/-! ## The files of a pass -/

namespace Pass

open BindingFile

variable (pass : Pass) (sources : List SourceText)

/-- The marked properties of all source files that can be bound. -/
def boundProperties : List Property :=
  (sources.flatMap fun source => (pass.findings source).properties).filter (·.bindable.isOk)

/-- The files of bound properties of a pass. -/
def bindingFiles : List BindingFile :=
  classFiles (sources.flatMap fun source => (pass.findings source).properties)

theorem bindingArtifacts_eq :
    pass.bindingArtifacts sources = (pass.bindingFiles sources).map laidOut := by
  rw [bindingArtifacts, allGenerated_eq, bindingFiles]

/-- The files of a pass are those of the classes and those of the bound properties, and none of the
latter has two functions for one property just where all marked properties that can be bound differ
in package, class name or name. -/
theorem bindingFiles_bindOnce_iff :
    ∃ out, pass.runSources sources = .ok out ∧
      out.artifacts = pass.classArtifacts sources ++ (pass.bindingFiles sources).map laidOut ∧
      ((∀ file ∈ pass.bindingFiles sources, file.BindsOnce) ↔
        ((pass.boundProperties sources).map fun p => (p.package, p.owner, p.name)).Nodup) := by
  obtain ⟨diagnostics, hrun⟩ := exists_runSources_eq_ok pass sources
  exact ⟨_, hrun, by rw [bindingArtifacts_eq], classFiles_bindOnce_iff _⟩

/-! ### A class in two files -/

/-- A file with a marked class that has a marked property. -/
def tankFile (path : String) : SourceText :=
  ⟨path, "package app\n\nimport com.github.fenrur.signal.BindableSignal\n\n@GenDsl\n" ++
    "class Tank(@ExposeSignal val level: BindableSignal<Int>)\n"⟩

variable {pass sources}

/-- The reports about the declarations and the files of bound properties come out of a pass. -/
theorem exists_runSources_of_mem {report : Diagnostic} {file : BindingFile}
    (hreport : .report report ∈ pass.classResults (pass.hierarchyIn sources) []
      (sources.flatMap pass.pendingIn)) (hfile : file ∈ pass.bindingFiles sources) :
    ∃ out, pass.runSources sources = .ok out ∧ report ∈ out.diagnostics ∧
      file.laidOut ∈ out.artifacts := by
  refine ⟨_, runSources_eq_ok pass sources, ?_, ?_⟩
  · exact List.mem_append_left _ (List.mem_append_right _
      (List.mem_filterMap.mpr ⟨_, hreport, rfl⟩))
  · refine List.mem_append_right _ ?_
    rw [allGenerated_eq]
    exact List.mem_map_of_mem hfile

/-- The second of two declarations of one name is reported. -/
theorem exists_report_of_repeated (hierarchy : ClassHierarchy) {pending : List Pending}
    {name : String} (h : Pending.names pending = [name, name]) : ∃ location,
      .report (Refusal.repeatedDeclaration.diagnostic name location) ∈
        pass.classResults hierarchy [] pending := by
  obtain ⟨p, others, rfl, hp, h⟩ := List.map_eq_cons_iff.mp h
  obtain ⟨q, others, rfl, hq, h⟩ := List.map_eq_cons_iff.mp h
  refine ⟨q.declaration.location, ?_⟩
  simp [classResults, resultOf, hp, hq]

/-- The class is declared in both files, so that the second one is reported and left out; but the
property of either is bound. -/
theorem runSources_tankFiles : ∃ out, ({} : Pass).runSources
      [tankFile "app/One.kt", tankFile "app/Two.kt"] = .ok out ∧
    (∃ diagnostic ∈ out.diagnostics, diagnostic.subject = "app.Tank" ∧
      diagnostic.message = "declared more than once; only the first declaration is generated") ∧
    ∃ file ∈ ({} : Pass).bindingFiles [tankFile "app/One.kt", tankFile "app/Two.kt"],
      file.laidOut ∈ out.artifacts ∧ file.functions =
        [⟨"Tank", "level", "Signal<Int>"⟩, ⟨"Tank", "level", "Signal<Int>"⟩] := by
  have hnames : Pending.names ([tankFile "app/One.kt", tankFile "app/Two.kt"].flatMap
      ({} : Pass).pendingIn) = ["app.Tank", "app.Tank"] := by decide +kernel
  have hbinds := classFiles_bind ([tankFile "app/One.kt", tankFile "app/Two.kt"].flatMap
    fun source => (({} : Pass).findings source).properties)
  obtain ⟨file, hfile, hkey⟩ := List.mem_map.mp <| (hbinds.classes ("app", "Tank")).mpr
    (by decide +kernel)
  obtain ⟨hpackage, howner⟩ := Prod.mk.inj hkey
  have hfunctions : file.functions =
      [⟨"Tank", "level", "Signal<Int>"⟩, ⟨"Tank", "level", "Signal<Int>"⟩] := by
    rw [hbinds.functions file hfile, hpackage, howner]
    decide +kernel
  obtain ⟨location, hreport⟩ := exists_report_of_repeated _ hnames
  obtain ⟨out, hrun, hdiagnostic, hartifact⟩ := exists_runSources_of_mem hreport hfile
  exact ⟨out, hrun, ⟨_, hdiagnostic, rfl, rfl⟩, file, hfile, hartifact, hfunctions⟩

end Pass

end ComponentWiring

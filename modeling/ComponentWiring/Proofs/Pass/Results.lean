import ComponentWiring.Pass.Generation
import ComponentWiring.Proofs.Code.Planning

/-!
What a pass returns. It never fails: the file of every class and of every class with bound
properties can be laid out. What becomes of a declaration depends on the declaration and on the
names that came before it (`resultOf`), and what becomes of the properties of a class on those
properties alone (`BindingFile.generated`); `runSources_eq_ok` puts the results together.
-/

namespace ComponentWiring

/-- What becomes of a declaration. -/
inductive ClassResult
  | file (a : Artifact)
  | report (diagnostic : Diagnostic)
  | nothing

namespace ClassResult

/-- The file of a result. -/
def artifact? : ClassResult → Option Artifact
  | file a => some a
  | _ => none

theorem artifact?_eq_some {result : ClassResult} {a : Artifact} :
    result.artifact? = some a ↔ result = .file a := by
  cases result <;> simp [artifact?]

/-- The report of a result. -/
def diagnostic? : ClassResult → Option Diagnostic
  | report diagnostic => some diagnostic
  | _ => none

/-- The files and the reports of results, in order. -/
def gathered (results : List ClassResult) : Generated :=
  ⟨results.filterMap artifact?, results.filterMap diagnostic?⟩

theorem gathered_cons (result : ClassResult) (results : List ClassResult) :
    gathered (result :: results) = (gathered [result]).append (gathered results) := by
  cases result <;> rfl

end ClassResult

/-- The qualified names of declarations. -/
def Pending.names (pending : List Pending) : List String :=
  pending.map (·.declaration.qualifiedName)

namespace Pass

variable (pass : Pass) (hierarchy : ClassHierarchy)

/-- What becomes of a declaration, where the names `earlier` came before. -/
def resultOf (earlier : List String) (p : Pending) : ClassResult :=
  let name := p.declaration.qualifiedName
  if earlier.contains name then
    .report (Refusal.repeatedDeclaration.diagnostic name p.declaration.location)
  else
    let d := p.withDefaults
    match FactoryFile.plan d (hierarchy.isComponent p.declaration) pass.mode pass.policy with
    | .error refusal => .report (refusal.diagnostic d.qualifiedName d.location)
    | .ok none => .nothing
    | .ok (some file) => .file file.laidOut

/-- What becomes of declarations, where the names `earlier` came before. -/
def classResults : (earlier : List String) → List Pending → List ClassResult
  | _, [] => []
  | earlier, p :: rest =>
    pass.resultOf hierarchy earlier p ::
      classResults (p.declaration.qualifiedName :: earlier) rest

variable {pass hierarchy}

theorem generateOne_eq_ok {earlier : List String} {p : Pending}
    (h : p.declaration.qualifiedName ∉ earlier) :
    pass.generateOne hierarchy p =
      .ok (ClassResult.gathered [pass.resultOf hierarchy earlier p]) := by
  have hnew : earlier.contains p.declaration.qualifiedName = false := by simpa using h
  unfold generateOne resultOf
  simp only [hnew, Bool.false_eq_true, if_false]
  rcases FactoryFile.plan p.withDefaults (hierarchy.isComponent p.declaration) pass.mode pass.policy
    with refusal | (_ | file)
  · rfl
  · rfl
  · simp only [FactoryFile.artifact_eq_ok]
    rfl

/-- Generation for classes never fails, and returns the files and the reports of the results. -/
theorem generateClasses_eq_ok (earlier : List String) (pending : List Pending) :
    pass.generateClasses hierarchy earlier pending =
      .ok (ClassResult.gathered (pass.classResults hierarchy earlier pending)) := by
  induction pending generalizing earlier with
  | nil => rfl
  | cons p rest ih =>
    rw [generateClasses, ih, classResults, ClassResult.gathered_cons]
    by_cases hseen : p.declaration.qualifiedName ∈ earlier
    · simp only [resultOf, List.contains_eq_mem, hseen, decide_true, if_true]
      rfl
    · simp only [List.contains_eq_mem, hseen, decide_false, Bool.false_eq_true, if_false,
        generateOne_eq_ok hseen]
      rfl

/-! ## The names that came before -/

theorem resultOf_congr {earlier earlier' : List String} {p : Pending}
    (h : p.declaration.qualifiedName ∈ earlier ↔ p.declaration.qualifiedName ∈ earlier') :
    pass.resultOf hierarchy earlier p = pass.resultOf hierarchy earlier' p := by
  simp only [resultOf, List.contains_eq_mem, h]

/-- Of the names that came before, only those of the declarations themselves matter. -/
theorem classResults_congr {earlier earlier' : List String} {pending : List Pending}
    (h : ∀ name ∈ Pending.names pending, name ∈ earlier ↔ name ∈ earlier') :
    pass.classResults hierarchy earlier pending = pass.classResults hierarchy earlier' pending := by
  induction pending generalizing earlier earlier' with
  | nil => rfl
  | cons p rest ih =>
    have hnext : ∀ name ∈ Pending.names rest, name ∈ p.declaration.qualifiedName :: earlier ↔
        name ∈ p.declaration.qualifiedName :: earlier' := fun name hname => by
      rw [List.mem_cons, List.mem_cons, h name (List.mem_cons_of_mem _ hname)]
    rw [classResults, classResults, resultOf_congr (h _ List.mem_cons_self), ih hnext]

theorem classResults_append (earlier : List String) (before after : List Pending) :
    pass.classResults hierarchy earlier (before ++ after) =
      pass.classResults hierarchy earlier before ++
        pass.classResults hierarchy (Pending.names before ++ earlier) after := by
  induction before generalizing earlier with
  | nil => rfl
  | cons p before ih =>
    have hsame (name : String) :
        name ∈ Pending.names before ++ (p.declaration.qualifiedName :: earlier) ↔
          name ∈ Pending.names (p :: before) ++ earlier := by
      simp only [Pending.names, List.map_cons, List.mem_append, List.mem_cons]
      tauto
    rw [List.cons_append, classResults, ih, classResults,
      classResults_congr (fun name _ => hsame name), List.cons_append]

/-- A result is what becomes of a declaration behind the names that came before it. -/
theorem exists_resultOf_of_mem {earlier : List String} {pending : List Pending}
    {result : ClassResult} (h : result ∈ pass.classResults hierarchy earlier pending) :
    ∃ p ∈ pending, ∃ earlier', earlier ⊆ earlier' ∧
      pass.resultOf hierarchy earlier' p = result := by
  induction pending generalizing earlier with
  | nil => cases h
  | cons p rest ih =>
    rcases List.mem_cons.mp h with rfl | h
    · exact ⟨p, List.mem_cons_self, earlier, List.Subset.refl _, rfl⟩
    · obtain ⟨q, hq, earlier', hsub, hresult⟩ := ih h
      exact ⟨q, List.mem_cons_of_mem p hq, earlier',
        fun name hname => hsub (List.mem_cons_of_mem _ hname), hresult⟩

/-- Of the hierarchy it only matters which declarations are components. -/
theorem classResults_congr_hierarchy {hierarchy' : ClassHierarchy} {pending : List Pending}
    (h : ∀ p ∈ pending, hierarchy'.isComponent p.declaration = hierarchy.isComponent p.declaration)
    (earlier : List String) :
    pass.classResults hierarchy' earlier pending = pass.classResults hierarchy earlier pending := by
  induction pending generalizing earlier with
  | nil => rfl
  | cons p rest ih =>
    obtain ⟨hp, hrest⟩ := List.forall_mem_cons.mp h
    rw [classResults, classResults, ih hrest]
    simp only [resultOf, hp]

theorem length_classResults (earlier : List String) (pending : List Pending) :
    (pass.classResults hierarchy earlier pending).length = pending.length := by
  induction pending generalizing earlier with
  | nil => rfl
  | cons p rest ih => rw [classResults, List.length_cons, ih, List.length_cons]

end Pass

/-! ## Bound properties -/

namespace BindingFile

/-- The file of the properties of one class and the reports about them. -/
def generated (owner : String) (properties : List Property) : Generated :=
  ⟨((plan? owner properties).map laidOut).toList, rejections properties⟩

/-- The files and the reports of all classes. -/
def allGenerated (properties : List Property) : Generated :=
  let parts := (owners properties).map fun (package, owner) =>
    generated owner (properties.filter fun p => p.package == package && p.owner == owner)
  ⟨parts.flatMap (·.artifacts), parts.flatMap (·.diagnostics)⟩

theorem generate_eq_ok (owner : String) (properties : List Property) :
    generate owner properties = .ok (generated owner properties) := by
  unfold generate generated
  cases plan? owner properties with
  | none => rfl
  | some file =>
    simp only [Option.toList_some, Option.map_some, List.mapM_cons, List.mapM_nil, artifact_eq_ok]
    rfl

theorem generateAll_eq_ok (properties : List Property) :
    generateAll properties = .ok (allGenerated properties) := by
  have hparts (classes : List (String × String)) :
      (classes.mapM fun (package, owner) =>
        generate owner (properties.filter fun p => p.package == package && p.owner == owner)) =
      .ok (classes.map fun (package, owner) =>
        generated owner (properties.filter fun p => p.package == package && p.owner == owner)) := by
    simp only [generate_eq_ok]
    exact List.mapM_pure
  rw [generateAll, hparts]
  rfl

end BindingFile

/-! ## The whole pass -/

namespace Pass

open Source

variable (pass : Pass)

/-- Generation never fails, and returns the reports from before it, then the results for classes,
and then those for bound properties. -/
theorem generate_eq_ok (pending : List Pending) (properties : List Property)
    (hierarchy : ClassHierarchy) (diagnostics : Diagnostics) :
    pass.generate pending properties hierarchy diagnostics =
      .ok ((Generated.append ⟨[], diagnostics⟩
        (ClassResult.gathered (pass.classResults hierarchy [] pending))).append
        (BindingFile.allGenerated properties)) := by
  unfold generate
  simp only [generateClasses_eq_ok, BindingFile.generateAll_eq_ok]
  rfl

/-! ### Source files -/

/-- What a source file declares. -/
def findings (source : SourceText) : FileFindings :=
  FileFindings.read source.path source.text.toList pass.convention

/-- The declarations of a source file, each with the text of the file. -/
def pendingIn (source : SourceText) : List Pending :=
  (pass.findings source).declarations.map fun declaration => ⟨declaration, some source.text⟩

/-- The classes of source files. -/
def hierarchyIn (sources : List SourceText) : ClassHierarchy :=
  hierarchyOf (sources.map pass.findings)

/-- A pass over source files never fails, and returns the reports about the reading of the files,
then the results for classes, and then those for bound properties. -/
theorem runSources_eq_ok (sources : List SourceText) :
    pass.runSources sources =
      .ok ((Generated.append ⟨[], sources.flatMap fun source => (pass.findings source).diagnostics⟩
        (ClassResult.gathered (pass.classResults (pass.hierarchyIn sources) []
          (sources.flatMap pass.pendingIn)))).append
        (BindingFile.allGenerated
          (sources.flatMap fun source => (pass.findings source).properties))) := by
  have hpending : ((pass.units sources).flatMap fun entry =>
      entry.1.declarations.map fun declaration => (⟨declaration, some entry.2⟩ : Pending)) =
      sources.flatMap pass.pendingIn := by
    rw [units, List.flatMap_map]
    rfl
  have hproperties : ((pass.units sources).flatMap (·.1.properties)) =
      sources.flatMap fun source => (pass.findings source).properties := by
    rw [units, List.flatMap_map]
    rfl
  have hdiagnostics : ((pass.units sources).flatMap (·.1.diagnostics)) =
      sources.flatMap fun source => (pass.findings source).diagnostics := by
    rw [units, List.flatMap_map]
    rfl
  have hhierarchy : hierarchyOf ((pass.units sources).map (·.1)) = pass.hierarchyIn sources := by
    rw [units, List.map_map]
    rfl
  unfold runSources
  simp only [hpending, hproperties, hdiagnostics, hhierarchy, generate_eq_ok]

end Pass

end ComponentWiring

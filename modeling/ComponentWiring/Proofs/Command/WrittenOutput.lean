import ComponentWiring.Command.Generate
import ComponentWiring.Proofs.Disk.WrittenFiles
import ComponentWiring.Proofs.Pass.OutputTrees

/-!
What the generating command reports is what stands on the disk. All files of a pass are written, and
nothing is written before all of them are known, so that a run that fails earlier leaves the disk as
it was (`run_written`). A root that is to be emptied holds nothing else afterwards if its path led
to something when the run began. Where the path leads through a directory that is only made on the
way to the root, the root is not found when it is time to empty it, and older files stay
(`run_staleDisk`).
-/

namespace ComponentWiring

open FileTree

/-! ## What is generated -/

/-- Every file of a pass is a source file. -/
theorem Pass.suffix_of_mem_generate {pass : Pass} {pending : List Pending}
    {properties : List Property} {hierarchy : ClassHierarchy} {diagnostics : Diagnostics}
    {generated : Generated}
    (h : pass.generate pending properties hierarchy diagnostics = .ok generated) {a : Artifact}
    (ha : a ∈ generated.artifacts) : ".kt".toList <:+ a.relativePath.toList := by
  rw [Pass.generate_eq_ok] at h
  cases h
  rcases List.mem_append.mp ha with ha | ha
  · obtain ⟨_, -, -, _, -, hbelongs⟩ := Pass.exists_of_mem_classResults ha
    exact hbelongs.suffix_relativePath
  · obtain ⟨_, -, hbelongs⟩ := BindingFile.exists_of_mem_allGenerated ha
    exact hbelongs.suffix_relativePath

namespace Configuration

/-- What the settings generate on a disk, with what was wrong with finding the source files. -/
inductive Produces (c : Configuration) (disk : Disk) : Diagnostics → Generated → Prop
  | ofManifest {path : String} {manifest : Manifest} {generated : Generated}
    (hpath : c.manifest = some path) (hload : Manifest.load disk path = .ok manifest)
    (hrun : c.toPass.1.runManifest disk manifest (PathText.directoryOf path) = .ok generated) :
    Produces c disk [] generated
  | ofSources {sources : List SourceText} {unfound : Diagnostics} {generated : Generated}
    (hpath : c.manifest = none) (hcollect : Discovery.collect disk c.sources = (sources, unfound))
    (hrun : c.toPass.1.runSources sources = .ok generated) :
    Produces c disk unfound generated

variable {c : Configuration} {disk : Disk} {generated : Generated} {unfound : Diagnostics}

theorem suffix_of_produces (h : c.Produces disk unfound generated) {a : Artifact}
    (ha : a ∈ generated.artifacts) : ".kt".toList <:+ a.relativePath.toList := by
  cases h with
  | ofManifest _ _ hrun => exact Pass.suffix_of_mem_generate hrun ha
  | ofSources _ _ hrun => exact Pass.suffix_of_mem_generate hrun ha

theorem exists_of_generate_eq_ok {result : Generated} (h : c.generate disk = .ok result) :
    ∃ unfound generated, c.Produces disk unfound generated ∧
      result = ⟨generated.artifacts, c.toPass.2 ++ (unfound ++ generated.diagnostics)⟩ := by
  unfold generate at h
  cases hpath : c.manifest with
  | some path =>
    simp only [hpath] at h
    cases hload : Manifest.load disk path with
    | error failure =>
      rw [hload] at h
      cases h
    | ok manifest =>
      rw [hload] at h
      cases hrun : c.toPass.1.runManifest disk manifest (PathText.directoryOf path) with
      | error failure =>
        simp only [during, bind, Except.bind, hrun] at h
        cases h
      | ok generated =>
        simp only [during, bind, Except.bind, hrun] at h
        cases h
        exact ⟨[], generated, .ofManifest hpath hload hrun, rfl⟩
  | none =>
    rcases hcollect : Discovery.collect disk c.sources with ⟨sources, unfound⟩
    simp only [hpath, hcollect] at h
    cases hrun : c.toPass.1.runSources sources with
    | error failure =>
      simp only [bind, Except.bind, hrun] at h
      cases h
    | ok generated =>
      simp only [bind, Except.bind, hrun] at h
      cases h
      refine ⟨unfound, generated, .ofSources hpath hcollect hrun, ?_⟩
      exact congrArg (Generated.mk _) (List.append_assoc ..)

/-- What is wrong with the name of the mode is no error. -/
theorem isError_of_mem_toPass {d : Diagnostic} (h : d ∈ c.toPass.2) : d.isError = false := by
  simp only [toPass, Mode.resolve] at h
  split at h
  · cases h
  · split at h
    · cases h
    · rw [List.mem_singleton] at h
      subst h
      rfl

end Configuration

/-! ## What is written -/

namespace GenerateOptions

section Finish

variable (disk : Disk) (c : Configuration) (format : OutputFormat) (color : Bool)
  (generated : Generated)

/-- The summary of a run, given the paths of the files. -/
def summaryOf (c : Configuration) (files : List String) (diagnostics : Diagnostics) :
    PassSummary where
  mode := c.toPass.1.mode
  outputDirectory := c.outputDirectory
  files := files
  errors := Diagnostics.errorCount diagnostics
  warnings := Diagnostics.warningCount diagnostics

/-- What was generated stands on the disk, and the summary lists it in order. -/
theorem exists_of_finish_eq_ok (status : Status)
    (hsources : ∀ a ∈ generated.artifacts, ".kt".toList <:+ a.relativePath.toList)
    (h : (finish disk c format color generated).result = .ok status) :
    ∃ root files, files.Pairwise (· < ·) ∧
      files.Perm (generated.artifacts.map Artifact.relativePath) ∧
      Leaves c.outputDirectory c.clean
        (generated.artifacts.map fun a => (a.relativePath, a.content)) disk
        (finish disk c format color generated).disk root ∧
      (finish disk c format color generated).stdout = Report.render format color
        (summaryOf c files generated.diagnostics).toValue ++ "\n" ∧
      status = .ofDiagnostics generated.diagnostics := by
  unfold finish at h ⊢
  cases htree : FileTree.ofArtifacts generated.artifacts with
  | error fault =>
    simp only [htree] at h
    cases h
  | ok tree =>
    have hperm := entries_perm_of_ofArtifacts htree
    simp only [htree] at h ⊢
    rcases hwrite : tree.writeTo disk c.outputDirectory { clean := c.clean } with
      ⟨fault | written, disk'⟩
    · simp only [hwrite] at h
      cases h
    · simp only [hwrite] at h ⊢
      cases h
      have htree : ∀ file ∈ tree.files.entries, ".kt".toList <:+ file.1.toList :=
        fun file hfile => by
          obtain ⟨a, ha, rfl⟩ := List.mem_map.mp (hperm.mem_iff.mp hfile)
          exact hsources a ha
      obtain ⟨root, hleaves⟩ := writeTo_eq_ok htree hwrite
      refine ⟨root, tree.files.keys, tree.files.pairwise_keys, ?_, hleaves.perm hperm, rfl, rfl⟩
      exact (hperm.map Prod.fst).trans (.of_eq List.map_map)

/-- Whether there are errors shows in the status; the settings give rise to warnings only. -/
theorem ofDiagnostics_eq_iff {c : Configuration} {diagnostics : Diagnostics} :
    Status.ofDiagnostics (c.toPass.2 ++ diagnostics) = .diagnostics ↔
      ∃ d ∈ diagnostics, d.severity = .error := by
  have herrors : Diagnostics.hasErrors (c.toPass.2 ++ diagnostics) = true ↔
      ∃ d ∈ diagnostics, d.severity = .error := by
    simp only [Diagnostics.hasErrors, List.any_append, Bool.or_eq_true, List.any_eq_true,
      Diagnostic.isError, beq_iff_eq]
    refine or_iff_right ?_
    rintro ⟨d, hd, hsevere⟩
    exact Bool.false_ne_true (c.isError_of_mem_toPass hd ▸ beq_iff_eq.mpr hsevere)
  unfold Status.ofDiagnostics
  split
  · next h => simp [herrors.mp h]
  · next h => simpa using mt herrors.mpr h

/-- The disk is only changed by writing to it. -/
theorem disk_finish_of_error (failure : StepFailure)
    (h : (finish disk c format color generated).result = .error failure)
    (hstep : ∀ root, failure.step ≠ some (.writeOutput root)) :
    (finish disk c format color generated).disk = disk := by
  unfold finish at h ⊢
  cases htree : FileTree.ofArtifacts generated.artifacts with
  | error fault => rfl
  | ok tree =>
    simp only [htree] at h ⊢
    rcases hwrite : tree.writeTo disk c.outputDirectory { clean := c.clean } with
      ⟨fault | written, disk'⟩
    · simp only [hwrite] at h
      cases h
      exact absurd rfl (hstep _)
    · simp only [hwrite] at h
      cases h

end Finish

/-- A run ends before anything is written, or it writes what was generated. -/
theorem run_cases (options : GenerateOptions) (disk : Disk) (format : OutputFormat)
    (color : Bool) :
    (∃ failure, options.run disk format color = .failed disk failure) ∨
    (∃ message, options.run disk format color = .nothingGiven disk message) ∨
    ∃ c unfound generated, options.resolve disk = .ok c ∧ c.Produces disk unfound generated ∧
      options.run disk format color = finish disk c format color
        ⟨generated.artifacts, c.toPass.2 ++ (unfound ++ generated.diagnostics)⟩ := by
  unfold run
  cases hresolve : options.resolve disk with
  | error failure => exact .inl ⟨failure, rfl⟩
  | ok c =>
    dsimp only
    split
    · exact .inr (.inl ⟨_, rfl⟩)
    · cases hgenerate : c.generate disk with
      | error failure => exact .inl ⟨failure, rfl⟩
      | ok result =>
        obtain ⟨unfound, generated, hproduces, rfl⟩ :=
          Configuration.exists_of_generate_eq_ok hgenerate
        exact .inr (.inr ⟨c, unfound, generated, rfl, hproduces, rfl⟩)

/-- What a run that did its work reports is what stands on the disk: the summary lists the files of
the pass in order, each of them holds its content under the root, and of the other files just those
are left that were there before and were not emptied away. A root that is to be emptied holds
nothing else if its path led to something at the start, or if it held nothing else even then. Errors
show in the status. A run that ends before it writes leaves the disk as it was. -/
theorem run_written (options : GenerateOptions) (disk : Disk) (format : OutputFormat)
    (color : Bool) :
    let out := options.run disk format color
    (∀ status, out.result = .ok status → status ≠ .invalidInput →
      ∃ c unfound generated root files, options.resolve disk = .ok c ∧
        c.Produces disk unfound generated ∧
        out.stdout = Report.render format color
          (summaryOf c files (c.toPass.2 ++ (unfound ++ generated.diagnostics))).toValue ++ "\n" ∧
        files.Pairwise (· < ·) ∧ files.Perm (generated.artifacts.map Artifact.relativePath) ∧
        Leaves c.outputDirectory c.clean
          (generated.artifacts.map fun a => (a.relativePath, a.content)) disk out.disk root ∧
        (c.clean = true →
          (HoldsOnly out.disk root (generated.artifacts.map fun a => placeOf root a.relativePath) ↔
            disk.contains c.outputDirectory = true ∨
            HoldsOnly disk root (generated.artifacts.flatMap fun a =>
              [placeOf root a.relativePath, temporary (placeOf root a.relativePath)]))) ∧
        (status = .diagnostics ↔
          ∃ d ∈ unfound ++ generated.diagnostics, d.severity = .error)) ∧
    (out.result = .ok .invalidInput → out.disk = disk) ∧
    ∀ failure, out.result = .error failure →
      (∀ root, failure.step ≠ some (.writeOutput root)) → out.disk = disk := by
  intro out
  obtain ⟨failure, hrun⟩ | ⟨message, hrun⟩ | ⟨c, unfound, generated, hresolve, hproduces, hrun⟩ :=
    run_cases options disk format color
  · subst out
    rw [hrun]
    exact ⟨fun _ h => (nomatch h), fun _ => rfl, fun _ _ _ => rfl⟩
  · subst out
    rw [hrun]
    refine ⟨fun status h hvalid => ?_, fun _ => rfl, fun _ _ _ => rfl⟩
    cases h
    exact absurd rfl hvalid
  · have hsources : ∀ a ∈ generated.artifacts, ".kt".toList <:+ a.relativePath.toList :=
      fun _ => Configuration.suffix_of_produces hproduces
    have hwritten (status : Status) := exists_of_finish_eq_ok disk c format color
      ⟨generated.artifacts, c.toPass.2 ++ (unfound ++ generated.diagnostics)⟩ status hsources
    have hfailed (failure : StepFailure) := disk_finish_of_error disk c format color
      ⟨generated.artifacts, c.toPass.2 ++ (unfound ++ generated.diagnostics)⟩ failure
    rw [← hrun] at hwritten hfailed
    refine ⟨fun status h _ => ?_, fun h => ?_, hfailed⟩
    · obtain ⟨root, files, hsorted, hfiles, hleaves, hreport, rfl⟩ := hwritten status h
      refine ⟨c, unfound, generated, root, files, hresolve, hproduces, hreport, hsorted, hfiles,
        hleaves, fun hclean => ?_, ofDiagnostics_eq_iff⟩
      rw [hclean] at hleaves
      simpa only [List.map_map, List.flatMap_map, Function.comp_def] using hleaves.holdsOnly_iff
    · obtain ⟨_, _, -, -, -, -, hstatus⟩ := hwritten _ h
      unfold Status.ofDiagnostics at hstatus
      split at hstatus <;> cases hstatus

/-- A disk with a source file, and with a file where the output belongs. -/
def staleDisk : Disk where
  entries := [
    (["src"], .directory),
    (["src", "Card.kt"], .text ("package app\n" ++
      "import com.github.fenrur.signal.BindableSignal\n" ++
      "class Card(@ExposeSignal val level: BindableSignal<Int>)\n")),
    (["out"], .directory),
    (["out", "Old.kt"], .text "stale")]

/-- Options that write to an emptied directory, along a path through a directory that is missing. -/
def detourOptions : GenerateOptions where
  sources := ["src"]
  output := some "gone/../out"
  clean := true

/-- The run succeeds and reports one file, and the old file is still there. -/
theorem run_staleDisk :
    let out := detourOptions.run staleDisk .text false
    out.result.toOption = some .success ∧
    out.stdout = Report.render .text false (PassSummary.toValue
      ⟨.quarkus, "gone/../out", ["app/CardSignalExtensions.kt"], 0, 0⟩) ++ "\n" ∧
    (out.disk.canonical "gone/../out").toOption = some ["out"] ∧
    ¬HoldsOnly out.disk ["out"] [placeOf ["out"] "app/CardSignalExtensions.kt"] := by
  have hrun : (detourOptions.run staleDisk .text false).result.toOption = some .success ∧
      (detourOptions.run staleDisk .text false).stdout = Report.render .text false
        (PassSummary.toValue
          ⟨.quarkus, "gone/../out", ["app/CardSignalExtensions.kt"], 0, 0⟩) ++ "\n" ∧
      ((detourOptions.run staleDisk .text false).disk.canonical "gone/../out").toOption =
        some ["out"] ∧
      Disk.entry? (detourOptions.run staleDisk .text false).disk ["out", "Old.kt"] =
        some (.text "stale") := by
    decide +kernel
  obtain ⟨hsuccess, hreport, hroot, hkept⟩ := hrun
  refine ⟨hsuccess, hreport, hroot, fun honly => ?_⟩
  exact absurd (honly _ _ (by decide) hkept (by decide)) (by decide)

end GenerateOptions

end ComponentWiring

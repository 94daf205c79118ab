import ComponentWiring.Proofs.Pass.UnitOrder

/-!
A manifest whose declarations name source files that cannot be read. Such a file only costs a
warning: the pass generates what it generates for the manifest that does not name the file, and
warns once about each declaration concerned, before anything else (`runManifest_withoutUnreadable`).

Both passes are compared declaration by declaration. A declaration either stays or loses the name of
its file (`OrForgotten`), and so does what becomes of it, since nothing that is generated mentions a
file.
-/

namespace ComponentWiring

/-! ## Taking out the name of the file -/

/-- The second is the first, or what is left of it. -/
def OrForgotten {α : Type} (forget : α → α) (a a' : α) : Prop :=
  a' = a ∨ a' = forget a

/-- The declaration without the name of its file. -/
def Declaration.withoutFile (d : Declaration) : Declaration :=
  { d with location := { d.location with file := "" } }

/-- The diagnostic without the name of the file that it is about. -/
def Diagnostic.withoutFile (report : Diagnostic) : Diagnostic :=
  { report with location := report.location.map fun location => { location with file := "" } }

/-- The declaration without the name of its file, and the text as it is. -/
def Pending.withoutFile (p : Pending) : Pending :=
  { p with declaration := p.declaration.withoutFile }

/-- A result without the name of the file that its report is about. -/
def ClassResult.withoutFile : ClassResult → ClassResult
  | report diagnostic => .report diagnostic.withoutFile
  | result => result

namespace Manifest

variable (disk : Disk) (base : String)

/-- Whether a declaration names a source file that cannot be read as a text. -/
def isUnreadable (d : Declaration) : Bool :=
  (sourcePath? base d).any fun path => (disk.read path).toOption.isNone

/-- A declaration, without the name of its file if the file cannot be read. -/
def forgetUnreadable (d : Declaration) : Declaration :=
  if isUnreadable disk base d then d.withoutFile else d

/-- The manifest that names no file that cannot be read. -/
def withoutUnreadable (manifest : Manifest) : Manifest :=
  { manifest with declarations := manifest.declarations.map (forgetUnreadable disk base) }

/-- The warning about a declaration whose source file cannot be read says which file it is and why
it cannot be read. -/
structure IsReadWarning (d : Declaration) (warning : Diagnostic) : Prop where
  severity : warning.severity = .warning
  rule : warning.rule = .io
  subject : warning.subject = d.qualifiedName
  location : warning.location = some d.location
  message : ∃ path fault, sourcePath? base d = some path ∧ disk.read path = .error fault ∧
    warning.message = "cannot read " ++ path ++ ": " ++ fault.message ++
      "; keeping manifest defaults"

variable {disk base} {d : Declaration}

theorem isUnreadable_iff : isUnreadable disk base d = true ↔
    ∃ path fault, sourcePath? base d = some path ∧ disk.read path = .error fault := by
  rw [isUnreadable, Option.any_eq_true_iff_get]
  cases hpath : sourcePath? base d with
  | none => simp
  | some path => cases hread : disk.read path <;> simp [hread, Except.toOption]

theorem sourcePath?_withoutFile : sourcePath? base d.withoutFile = none := rfl

theorem orForgotten_forgetUnreadable (disk : Disk) (base : String) (d : Declaration) :
    OrForgotten Declaration.withoutFile d (forgetUnreadable disk base d) := by
  unfold forgetUnreadable
  split
  · exact .inr rfl
  · exact .inl rfl

/-- No file is mentioned in the hierarchy. -/
theorem hierarchy_withoutUnreadable (manifest : Manifest) :
    (manifest.withoutUnreadable disk base).hierarchy = manifest.hierarchy := by
  have hinsert (known : ClassHierarchy) (d : Declaration) :
      known.insertDeclaration (forgetUnreadable disk base d) = known.insertDeclaration d := by
    rcases orForgotten_forgetUnreadable disk base d with h | h <;> rw [h]
    rfl
  unfold hierarchy withoutUnreadable
  simp only [List.foldl_map, hinsert]

end Manifest

/-! ## Results -/

namespace Pass

open Manifest

variable {pass : Pass} {hierarchy : ClassHierarchy} {disk : Disk} {base : String}

theorem resultOf_withoutFile (earlier : List String) (p : Pending) :
    pass.resultOf hierarchy earlier p.withoutFile =
      (pass.resultOf hierarchy earlier p).withoutFile := by
  have hname : p.withoutFile.declaration.qualifiedName = p.declaration.qualifiedName := rfl
  have hdefaults : p.withoutFile.withDefaults = p.withDefaults.withoutFile := by
    obtain ⟨d, _ | text⟩ := p <;> rfl
  have hplan (exportable : Bool) :
      FactoryFile.plan p.withDefaults.withoutFile exportable pass.mode pass.policy =
        FactoryFile.plan p.withDefaults exportable pass.mode pass.policy := rfl
  have hcomponent : hierarchy.isComponent p.withoutFile.declaration =
      hierarchy.isComponent p.declaration := rfl
  unfold resultOf
  simp only [hname, hdefaults, hcomponent, hplan]
  split
  · rfl
  · rcases FactoryFile.plan p.withDefaults (hierarchy.isComponent p.declaration) pass.mode
      pass.policy with refusal | (_ | file) <;> rfl

theorem classResults_orForgotten {pending pending' : List Pending}
    (h : List.Forall₂ (OrForgotten Pending.withoutFile) pending pending') (earlier : List String) :
    List.Forall₂ (OrForgotten ClassResult.withoutFile)
      (pass.classResults hierarchy earlier pending)
      (pass.classResults hierarchy earlier pending') := by
  induction h generalizing earlier with
  | nil => exact .nil
  | @cons p p' _ _ hp _ ih =>
    have hname : p'.declaration.qualifiedName = p.declaration.qualifiedName := by
      rcases hp with rfl | rfl <;> rfl
    rw [classResults, classResults, hname]
    refine .cons ?_ (ih _)
    rcases hp with rfl | rfl
    · exact .inl rfl
    · exact .inr (resultOf_withoutFile earlier p)

/-- The files are the same, and of a report only the name of the file can be missing. -/
theorem gathered_orForgotten {results results' : List ClassResult}
    (h : List.Forall₂ (OrForgotten ClassResult.withoutFile) results results') :
    (ClassResult.gathered results').artifacts = (ClassResult.gathered results).artifacts ∧
      List.Forall₂ (OrForgotten Diagnostic.withoutFile)
        (ClassResult.gathered results).diagnostics (ClassResult.gathered results').diagnostics := by
  induction h with
  | nil => exact ⟨rfl, .nil⟩
  | @cons result result' results results' hresult _ ih =>
    obtain ⟨hartifacts, hreports⟩ := ih
    have hartifact : result'.artifact? = result.artifact? := by
      rcases hresult with rfl | rfl
      · rfl
      · cases result <;> rfl
    refine ⟨?_, ?_⟩
    · simp only [ClassResult.gathered, List.filterMap_cons, hartifact] at hartifacts ⊢
      rw [hartifacts]
    · simp only [ClassResult.gathered, List.filterMap_cons] at hreports ⊢
      rcases hresult with rfl | rfl
      · cases result' with
        | report diagnostic => exact .cons (.inl rfl) hreports
        | _ => exact hreports
      · cases result with
        | report diagnostic => exact .cons (.inr rfl) hreports
        | _ => exact hreports

/-- What is reported about a class or a property is an error, and no fault of a file. -/
theorem severity_rule_of_mem_reports {earlier : List String} {pending : List Pending}
    {properties : List Property} {report : Diagnostic}
    (h : report ∈
      (ClassResult.gathered (pass.classResults hierarchy earlier pending)).diagnostics ++
        (BindingFile.allGenerated properties).diagnostics) :
    report.severity = .error ∧ report.rule ≠ .io := by
  rcases List.mem_append.mp h with h | h
  · obtain ⟨refusal, subject, location, rfl⟩ := exists_refusal_of_mem_classResults h
    exact ⟨rfl, nofun⟩
  · obtain ⟨fault, p, rfl⟩ := BindingFile.exists_fault_of_mem h
    exact ⟨rfl, by cases fault <;> nofun⟩

/-! ## Reading the sources -/

variable {d : Declaration}

/-- Where a declaration names no file, or one that can be read, there is nothing to say. -/
theorem pendingOf_of_readable (h : isUnreadable disk base d = false) :
    (pendingOf disk base d).2 = [] := by
  unfold pendingOf
  cases hpath : sourcePath? base d with
  | none => rfl
  | some path =>
    cases hread : disk.read path with
    | ok text => simp only [hread]
    | error fault =>
      exact absurd (isUnreadable_iff.mpr ⟨path, fault, hpath, hread⟩) (by simp [h])

/-- A file that cannot be read has no text, whether or not the declaration names it. -/
theorem pendingOf_orForgotten (d : Declaration) :
    OrForgotten Pending.withoutFile (pendingOf disk base d).1
      (pendingOf disk base (forgetUnreadable disk base d)).1 := by
  cases hd : isUnreadable disk base d with
  | true =>
    obtain ⟨path, fault, hpath, hread⟩ := isUnreadable_iff.mp hd
    refine .inr ?_
    simp only [forgetUnreadable, hd, if_true, pendingOf, sourcePath?_withoutFile, hpath, hread]
    rfl
  | false =>
    simp only [forgetUnreadable, hd, Bool.false_eq_true, if_false]
    exact .inl rfl

/-- Without the names of the files that cannot be read, all that is named can be read. -/
theorem isUnreadable_forgetUnreadable (d : Declaration) :
    isUnreadable disk base (forgetUnreadable disk base d) = false := by
  unfold forgetUnreadable
  split
  · rfl
  · next hd => simpa using hd

/-- There is one warning about each declaration whose file cannot be read. -/
theorem forall₂_isReadWarning (declarations : List Declaration) :
    List.Forall₂ (IsReadWarning disk base) (declarations.filter (isUnreadable disk base))
      ((declarations.map (pendingOf disk base)).flatMap (·.2)) := by
  induction declarations with
  | nil => exact .nil
  | cons d declarations ih =>
    rw [List.map_cons, List.flatMap_cons]
    cases hd : isUnreadable disk base d with
    | true =>
      obtain ⟨path, fault, hpath, hread⟩ := isUnreadable_iff.mp hd
      have hwarning : (pendingOf disk base d).2 = [unreadableSource d path fault] := by
        simp only [pendingOf, hpath, hread]
      rw [List.filter_cons_of_pos hd, hwarning]
      exact .cons ⟨rfl, rfl, rfl, rfl, path, fault, hpath, hread, rfl⟩ ih
    | false =>
      rw [List.filter_cons_of_neg (by simp [hd]), pendingOf_of_readable hd]
      exact ih

/-! ## The whole pass -/

/-- Source files that cannot be read only cost warnings. A pass over a manifest generates the same
files as for the manifest that does not name them, and reports the same. Before these reports, there
is one warning about each declaration whose file cannot be read, in the order of the declarations.
None of the reports is about a file. -/
theorem runManifest_withoutUnreadable (pass : Pass) (disk : Disk) (manifest : Manifest)
    (base : String) :
    ∃ out out', pass.runManifest disk manifest base = .ok out ∧
      pass.runManifest disk (manifest.withoutUnreadable disk base) base = .ok out' ∧
      out'.artifacts = out.artifacts ∧
      ∃ warnings reports, out.diagnostics = warnings ++ reports ∧
        List.Forall₂ (IsReadWarning disk base)
          (manifest.declarations.filter (isUnreadable disk base)) warnings ∧
        List.Forall₂ (OrForgotten Diagnostic.withoutFile) reports out'.diagnostics ∧
        ∀ report ∈ reports, report.severity = .error ∧ report.rule ≠ .io := by
  set forgotten := manifest.declarations.map (forgetUnreadable disk base) with hforgotten
  have hpending : List.Forall₂ (OrForgotten Pending.withoutFile)
      ((manifest.declarations.map (pendingOf disk base)).map (·.1))
      ((forgotten.map (pendingOf disk base)).map (·.1)) := by
    rw [hforgotten, List.map_map, List.map_map, List.map_map, List.forall₂_map_left_iff,
      List.forall₂_map_right_iff]
    exact List.forall₂_same.mpr fun d _ => pendingOf_orForgotten d
  have hquiet : (forgotten.map (pendingOf disk base)).flatMap (·.2) = [] := by
    simp only [hforgotten, List.flatMap_eq_nil_iff, List.mem_map]
    rintro _ ⟨_, ⟨d, -, rfl⟩, rfl⟩
    exact pendingOf_of_readable (isUnreadable_forgetUnreadable d)
  have hresults : List.Forall₂ (OrForgotten ClassResult.withoutFile)
      (pass.classResults manifest.hierarchy []
        ((manifest.declarations.map (pendingOf disk base)).map (·.1)))
      (pass.classResults manifest.hierarchy [] ((forgotten.map (pendingOf disk base)).map (·.1))) :=
    classResults_orForgotten hpending []
  obtain ⟨hfiles, hreports⟩ := gathered_orForgotten hresults
  have hproperties : List.Forall₂ (OrForgotten Diagnostic.withoutFile)
      (BindingFile.allGenerated manifest.properties).diagnostics
      (BindingFile.allGenerated manifest.properties).diagnostics :=
    List.forall₂_same.mpr fun _ _ => .inl rfl
  have hrun' : pass.runManifest disk (manifest.withoutUnreadable disk base) base =
      pass.generate ((forgotten.map (pendingOf disk base)).map (·.1)) manifest.properties
        manifest.hierarchy [] := by
    rw [runManifest, hierarchy_withoutUnreadable, ← hquiet]
    rfl
  refine ⟨_, _, pass.generate_eq_ok _ _ _ _, hrun'.trans (pass.generate_eq_ok _ _ _ _), ?_,
    _, _, List.append_assoc _ _ _, forall₂_isReadWarning _,
    List.rel_append hreports hproperties, fun _ => severity_rule_of_mem_reports⟩
  simp only [Generated.append, hfiles]

end Pass

end ComponentWiring

import ComponentWiring.Command.Overview
import ComponentWiring.Proofs.Pass.Accounting
import ComponentWiring.Proofs.Pass.WrittenClasses
import ComponentWiring.Proofs.Source.PlainTexts

/-!
A scan reports what a pass generates. Both read the same declarations with the same defaults, the
scan to describe them and the pass to lay them out, so that the report about a class is what the
file of the class holds (`reportsOf_describe_generated`): the entries about injected parameters
without their defaults are its fields, and those about exposed parameters the parameters of
`create`.
-/

namespace ComponentWiring

open Source Text

/-! ## What a scan says -/

namespace SourceOverview

/-- What a scan says about the declarations of source files. -/
def reportsOf (convention : Convention) (sources : List SourceText) : List DeclarationSummary :=
  let pass : Pass := { convention }
  (sources.flatMap pass.pendingIn).map fun p =>
    describe (pass.hierarchyIn sources) p.withDefaults

/-- What a scan says is wrong with source files. -/
def problemsOf (convention : Convention) (sources : List SourceText) : Diagnostics :=
  sources.flatMap fun source => (Pass.findings { convention } source).diagnostics

/-- Of what a pass is told, only the convention matters to a scan. -/
theorem reportsOf_eq_map (pass : Pass) (sources : List SourceText) :
    reportsOf pass.convention sources = (sources.flatMap pass.pendingIn).map fun p =>
      describe (pass.hierarchyIn sources) p.withDefaults :=
  rfl

/-- A scan reports on the source files that it finds, behind what is wrong with finding them. -/
theorem exists_scan_eq_ok {disk : Disk} {roots : List String} {name : Option String}
    {convention : Convention} {sources : List SourceText} {problems : Diagnostics}
    (hconvention : conventionOf name = .ok convention)
    (hcollect : Discovery.collect disk roots = (sources, problems)) :
    ∃ report, scan disk roots name = .ok (report, problems ++ problemsOf convention sources) ∧
      report.files = sources.length ∧ report.declarations = reportsOf convention sources := by
  have hhierarchy : Pass.hierarchyOf ((Pass.units { convention } sources).map (·.1)) =
      Pass.hierarchyIn { convention } sources := by
    rw [Pass.units, List.map_map]
    rfl
  have hdeclarations : ((Pass.units { convention } sources).flatMap fun entry =>
      entry.1.declarations.map fun d =>
        describe (Pass.hierarchyIn { convention } sources)
          (Pending.withDefaults ⟨d, some entry.2⟩)) = reportsOf convention sources := by
    rw [reportsOf, Pass.units, List.flatMap_map, List.map_flatMap]
    refine List.flatMap_congr fun source _ => ?_
    rw [Pass.pendingIn, List.map_map]
    rfl
  have hdiagnostics : ((Pass.units { convention } sources).flatMap (·.1.diagnostics)) =
      problemsOf convention sources := by
    rw [Pass.units, List.flatMap_map]
    rfl
  unfold scan
  rw [hconvention]
  simp only [bind, Except.bind, hcollect, hhierarchy, hdeclarations, hdiagnostics]
  exact ⟨_, rfl, rfl, rfl⟩

end SourceOverview

/-! ## Entries and signatures -/

/-- An entry of a report without the default in it. -/
def withoutDefault (entry : String) : String :=
  String.ofList (beforeText " = ".toList entry.toList)

theorem beforeText_append_of_not_mem {as : List Char} (h : '=' ∉ as) (bs : List Char) :
    beforeText " = ".toList (as ++ (" = ".toList ++ bs)) = as := by
  have hsplit : splitAtText " = ".toList (as ++ (" = ".toList ++ bs)) = some (as, bs) := by
    induction as with
    | nil => rfl
    | cons a as ih =>
      obtain ⟨-, has⟩ := not_or.mp (List.mem_cons.not.mp h)
      have hnext : " = ".toList.isPrefixOf (a :: (as ++ (" = ".toList ++ bs))) = false := by
        cases as with
        | nil => simp [List.isPrefixOf]
        | cons b as => simp_all [List.isPrefixOf]
      rw [List.cons_append, splitAtText, hnext, ih has]
      rfl
  rw [beforeText, hsplit]

/-- An entry about a parameter is its signature and its default. -/
theorem withoutDefault_line {p : Parameter} (h : '=' ∉ p.signature.toList) :
    withoutDefault p.line = p.signature := by
  unfold withoutDefault Parameter.line
  cases p.defaultExpression with
  | none =>
    have hnone : ¬" = ".toList <:+: p.signature.toList := fun hoccurs =>
      h (hoccurs.subset (by decide))
    rw [beforeText_eq_self hnone, String.ofList_toList]
  | some expression =>
    simp only [String.toList_append, List.append_assoc]
    rw [beforeText_append_of_not_mem h, String.ofList_toList]

/-- No equals sign is read into a type: a type is written in front of it. -/
theorem not_mem_render_type {pass : Pass} {source : SourceText} {d : Declaration} {p : Parameter}
    (hd : d ∈ (pass.findings source).declarations) (hp : p ∈ d.parameters) :
    '=' ∉ p.type.render.toList := by
  obtain ⟨cs, ⟨_, _, _, -, t, -, rfl⟩, htype⟩ := exists_isWrittenType hd hp
  rw [htype]
  intro hmem
  rcases mem_render_readType (Imports.dotted_ofText _) hmem with h | h | h
  · exact absurd (List.mem_takeWhile_imp h) (by decide)
  · exact absurd h (by decide)
  · exact absurd h (by decide)

/-- A signature holds an equals sign only in its name. -/
theorem not_mem_signature {p : Parameter} (hname : '=' ∉ p.name.toList)
    (htype : '=' ∉ p.type.render.toList) : '=' ∉ p.signature.toList := by
  simp only [Parameter.signature, String.toList_append, List.mem_append, not_or]
  exact ⟨⟨hname, by decide⟩, htype⟩

/-! ## Reports and files -/

/-- The file of a class is what a report says about the class. -/
structure DeclarationSummary.Describes (r : DeclarationSummary) (file : FactoryFile) : Prop where
  builder : file.builder.isSome = r.exportable
  factory : ∃ factory, file.factory = some factory ∧
    factory.createParameters = FactoryFile.withCommas r.exposed ∧
    factory.fields =
      FactoryFile.withCommas (r.injected.map fun entry => "private val " ++ withoutDefault entry)

namespace SourceOverview

/-- Default expressions do not make a class a component. -/
theorem isComponent_withDefaults (hierarchy : ClassHierarchy) (p : Pending) :
    hierarchy.isComponent p.withDefaults = hierarchy.isComponent p.declaration := by
  unfold Pending.withDefaults
  cases p.source <;> rfl

theorem describe_describes {hierarchy : ClassHierarchy} {p : Pending} {mode : Mode}
    {file : FactoryFile} (hsignature : ∀ q ∈ p.withDefaults.injected, '=' ∉ q.signature.toList)
    (hplan : FactoryFile.plan p.withDefaults (hierarchy.isComponent p.declaration) mode
      .alwaysFactory = .ok (some file)) :
    (describe hierarchy p.withDefaults).Describes file := by
  obtain ⟨-, -, -, rfl⟩ := FactoryFile.plan_eq_ok_some_iff.mp hplan
  have hfactory : FactoryFile.hasFactory p.withDefaults .alwaysFactory = true := by
    simp [FactoryFile.hasFactory]
  have hfields : (p.withDefaults.injected.map fun q => "private val " ++ q.signature) =
      (p.withDefaults.injected.map Parameter.line).map fun entry =>
        "private val " ++ withoutDefault entry := by
    rw [List.map_map]
    refine List.map_congr_left fun q hq => ?_
    rw [Function.comp_apply, withoutDefault_line (hsignature q hq)]
  refine ⟨?_, FactoryFile.factoryPart p.withDefaults mode, ?_, rfl, ?_⟩
  · rw [describe, isComponent_withDefaults]
    cases hcomponent : hierarchy.isComponent p.declaration <;>
      simp [FactoryFile.planned]
  · rw [FactoryFile.planned, hfactory, if_pos rfl]
  · exact congrArg FactoryFile.withCommas hfields

end SourceOverview

namespace Pass

variable {pass : Pass} {hierarchy : ClassHierarchy}

theorem generateOne_of_plan {p : Pending} {file : FactoryFile}
    (h : FactoryFile.plan p.withDefaults (hierarchy.isComponent p.declaration) pass.mode
      pass.policy = .ok (some file)) :
    pass.generateOne hierarchy p = .ok ⟨[file.laidOut], []⟩ := by
  simp only [generateOne, h, FactoryFile.artifact_eq_ok, Except.map]

/-- What is generated for a class is the file that is planned for it. -/
theorem plan_of_generateOne {p : Pending} {generated : Generated} {a : Artifact}
    (h : pass.generateOne hierarchy p = .ok generated) (ha : a ∈ generated.artifacts) :
    let file := FactoryFile.planned p.withDefaults (hierarchy.isComponent p.declaration) pass.mode
      pass.policy
    FactoryFile.plan p.withDefaults (hierarchy.isComponent p.declaration) pass.mode pass.policy =
      .ok (some file) ∧ a = file.laidOut := by
  rcases hplan : FactoryFile.plan p.withDefaults (hierarchy.isComponent p.declaration) pass.mode
    pass.policy with refusal | (_ | file)
  · simp only [generateOne, hplan, Except.ok.injEq] at h
    rw [← h] at ha
    cases ha
  · simp only [generateOne, hplan, Except.ok.injEq] at h
    rw [← h] at ha
    cases ha
  · rw [generateOne_of_plan hplan, Except.ok.injEq] at h
    rw [← h] at ha
    obtain ⟨-, -, -, rfl⟩ := FactoryFile.plan_eq_ok_some_iff.mp hplan
    exact ⟨rfl, List.mem_singleton.mp ha⟩

/-- What is generated for the first declaration of a name is among the files of all of them. -/
theorem mem_classResults_of_generateOne {pending : List Pending} {i : Nat} {p : Pending}
    {generated : Generated} {a : Artifact} (hp : pending[i]? = some p)
    (hnew : p.declaration.qualifiedName ∉ Pending.names (pending.take i))
    (h : pass.generateOne hierarchy p = .ok generated) (ha : a ∈ generated.artifacts) :
    a ∈ (pass.classResults hierarchy [] pending).filterMap ClassResult.artifact? := by
  rw [generateOne_eq_ok hnew, Except.ok.injEq] at h
  rw [← h] at ha
  obtain ⟨result, hresult, ha⟩ := List.mem_filterMap.mp ha
  obtain rfl := List.mem_singleton.mp hresult
  exact List.mem_filterMap.mpr ⟨_, List.mem_of_getElem? (getElem?_classResults hp), ha⟩

/-- In the file of a scanned class no signature of a parameter holds an equals sign. -/
theorem not_mem_signature_of_plan {source : SourceText} {p : Pending} {exportable : Bool}
    {mode : Mode} {policy : Policy} {file : FactoryFile} (hp : p ∈ pass.pendingIn source)
    (hplan : FactoryFile.plan p.withDefaults exportable mode policy = .ok (some file)) :
    ∀ q ∈ p.withDefaults.injected, '=' ∉ q.signature.toList := by
  intro q hq
  obtain ⟨hnames, -⟩ := FactoryFile.plan_eq_ok_some_iff.mp hplan
  have hq' := (List.mem_filter.mp hq).1
  refine not_mem_signature ?_ ?_
  · exact FactoryFile.not_mem_of_isIdentifier (hnames.parameters q hq') (by decide) (by decide)
  · obtain ⟨d, hd, rfl⟩ := List.mem_map.mp hp
    obtain ⟨written, hwritten, rfl⟩ := List.mem_map.mp hq'
    have htype : '=' ∉ written.type.render.toList := not_mem_render_type hd hwritten
    exact htype

/-- A scan reports what a pass with factories for all classes generates. Whatever disk the source
files are found on, the scan says the same about them; the pass reports everything that the scan
says is wrong with them; and the file of the first declaration of every name, if it gets one, is the
planned one and is what the scan says about the declaration. -/
theorem reportsOf_describe_generated (mode : Mode) (convention : Convention)
    (sources : List SourceText) :
    let pass : Pass := ⟨mode, .alwaysFactory, convention⟩
    let pending := sources.flatMap pass.pendingIn
    let reports := SourceOverview.reportsOf convention sources
    let problems := SourceOverview.problemsOf convention sources
    (∀ disk roots name unfound, SourceOverview.conventionOf name = .ok convention →
      Discovery.collect disk roots = (sources, unfound) →
      ∃ report, SourceOverview.scan disk roots name = .ok (report, unfound ++ problems) ∧
        report.declarations = reports) ∧
    ∃ out, pass.runSources sources = .ok out ∧ problems <+: out.diagnostics ∧
      reports.length = pending.length ∧
      ∀ i p r, pending[i]? = some p → reports[i]? = some r →
        let file := FactoryFile.planned p.withDefaults
          ((pass.hierarchyIn sources).isComponent p.declaration) mode .alwaysFactory
        r.name = p.declaration.qualifiedName ∧
        (p.declaration.qualifiedName ∉ Pending.names (pending.take i) →
          ∀ generated a, pass.generateOne (pass.hierarchyIn sources) p = .ok generated →
            a ∈ generated.artifacts → a ∈ out.artifacts ∧ a = file.laidOut ∧ r.Describes file) := by
  intro pass pending reports problems
  have hreports : reports = pending.map fun p =>
      SourceOverview.describe (pass.hierarchyIn sources) p.withDefaults :=
    SourceOverview.reportsOf_eq_map pass sources
  refine ⟨fun disk roots name unfound hconvention hcollect => ?_, _, pass.runSources_eq_ok sources,
    ?_, by rw [hreports, List.length_map], fun i p r hp hr => ?_⟩
  · obtain ⟨report, hscan, -, hdeclarations⟩ :=
      SourceOverview.exists_scan_eq_ok hconvention hcollect
    exact ⟨report, hscan, hdeclarations⟩
  · exact ⟨_, (List.append_assoc ..).symm⟩
  · rw [hreports, List.getElem?_map, hp, Option.map_some, Option.some.injEq] at hr
    subst hr
    refine ⟨p.sameSignature_withDefaults.qualifiedName, fun hnew generated a hgenerated ha => ?_⟩
    obtain ⟨source, -, hsource⟩ := List.mem_flatMap.mp (List.mem_of_getElem? hp)
    obtain ⟨hplan, heq⟩ := plan_of_generateOne hgenerated ha
    have hsignature := not_mem_signature_of_plan hsource hplan
    exact ⟨List.mem_append_left _ (mem_classResults_of_generateOne hp hnew hgenerated ha), heq,
      SourceOverview.describe_describes hsignature hplan⟩

/-- A component with an injected default and one that holds the sign in front of defaults. -/
def dialFile : SourceText :=
  ⟨"Dial.kt", "@GenDsl class Dial(@GenDslInject zone: Zone? = UTC, label: String = \"a = b\") : " ++
    "com.vaadin.flow.component.Component()"⟩

theorem reportsOf_describe_generated_dial :
    let pass : Pass := ⟨default, .alwaysFactory, .markToInject⟩
    ∃ out p r, pass.runSources [dialFile] = .ok out ∧ pass.pendingIn dialFile = [p] ∧
      SourceOverview.reportsOf .markToInject [dialFile] = [r] ∧ r.exportable = true ∧
      r.injected = ["zone: Zone? = UTC"] ∧ r.exposed = ["label: String = \"a = b\""] ∧
      let file := FactoryFile.planned p.withDefaults true default .alwaysFactory
      file.laidOut ∈ out.artifacts ∧ r.Describes file := by
  intro pass
  have hview : (pass.pendingIn dialFile).map (fun p =>
      let d := p.declaration
      (((pass.hierarchyIn [dialFile]).targets d.qualifiedName d.supertypes d.starImports).head?,
        p.withDefaults.injected.map Parameter.line, p.withDefaults.exposed.map Parameter.line,
        (FactoryFile.plan p.withDefaults true pass.mode pass.policy).toOption.join.isSome)) =
      [(some (.named "com.vaadin.flow.component.Component"), ["zone: Zone? = UTC"],
        ["label: String = \"a = b\""], true)] := by
    decide +kernel
  obtain ⟨p, hpending, hview⟩ := List.map_eq_singleton_iff.mp hview
  simp only [Prod.mk.injEq, Option.isSome_iff_exists] at hview
  obtain ⟨htarget, hinjected, hexposed, file, hfile⟩ := hview
  have hcomponent : (pass.hierarchyIn [dialFile]).isComponent p.declaration = true := by
    obtain ⟨work, hwork⟩ := List.head?_eq_some_iff.mp htarget
    rw [ClassHierarchy.isComponent, hwork, ClassHierarchy.leadsToComponent,
      if_pos (by decide +kernel)]
  have hplan : FactoryFile.plan p.withDefaults true pass.mode pass.policy = .ok (some file) := by
    cases hresult : FactoryFile.plan p.withDefaults true pass.mode pass.policy with
    | error refusal => simp [hresult, Except.toOption] at hfile
    | ok planned => simpa [hresult, Except.toOption] using hfile
  have hall : [dialFile].flatMap pass.pendingIn = [p] := by
    rw [List.flatMap_singleton, hpending]
  have hreports : SourceOverview.reportsOf .markToInject [dialFile] =
      [SourceOverview.describe (pass.hierarchyIn [dialFile]) p.withDefaults] := by
    rw [SourceOverview.reportsOf_eq_map pass, hall, List.map_singleton]
  obtain ⟨-, out, hout, -, -, hdescribed⟩ :=
    reportsOf_describe_generated default .markToInject [dialFile]
  have hfirst := hdescribed 0 p _ (by rw [hall]; rfl) (by rw [hreports]; rfl)
  obtain ⟨hmem, heq, hdescribes⟩ := hfirst.2 (by simp [Pending.names]) _ file.laidOut
    (generateOne_of_plan (hcomponent ▸ hplan)) List.mem_cons_self
  rw [hcomponent] at heq hdescribes
  exact ⟨out, p, _, hout, hpending, hreports, by rw [SourceOverview.describe,
    SourceOverview.isComponent_withDefaults, hcomponent], hinjected, hexposed, heq ▸ hmem,
    hdescribes⟩

end Pass

end ComponentWiring

import ComponentWiring.Proofs.Code.InertFiles
import ComponentWiring.Proofs.Hierarchy.UnseenClasses
import ComponentWiring.Proofs.Pass.ListedSources
import ComponentWiring.Proofs.Pass.OutputTrees

/-!
Generated files as source files. A pass that also reads the files of an earlier pass over the same
sources generates and reports the same once more (`runSources_generated`), if the texts that
generated files take over from their sources are plain and no class extends a factory. The generated
files then declare nothing but factories, which no search for components comes upon
(`runSources_append_idle`).
-/

namespace ComponentWiring

open Text Source

namespace Pass

variable (pass : Pass)

/-! ## Idle files -/

section Idle

variable {pass} {sources extra : List SourceText} {names : List String}

theorem agreeOff_hierarchyIn
    (havoids : ∀ source ∈ sources, ∀ c ∈ pass.classesIn source,
      AvoidsNames (· ∈ names) c.supertypes)
    (hidle : ∀ source ∈ extra, (pass.findings source).Idle names) :
    (pass.hierarchyIn sources).AgreeOff (· ∈ names) (pass.hierarchyIn (sources ++ extra)) where
  find name hname := by
    have hnone : (extra.reverse.findSome? fun source =>
        (pass.findings source).hierarchy.find? name) = none :=
      List.findSome?_eq_none_iff.mpr fun source hsource =>
        (hidle source (List.mem_reverse.mp hsource)).hierarchy name hname
    rw [find?_hierarchyIn, find?_hierarchyIn, List.reverse_append, List.findSome?_append, hnone,
      Option.none_or]
  avoids name c hc := by
    rw [find?_hierarchyIn] at hc
    obtain ⟨source, hsource, hfind⟩ := List.exists_of_findSome?_eq_some hc
    rw [ClassHierarchy.find?, byName_findings] at hfind
    obtain ⟨c', hc', heq⟩ := List.mem_map.mp (Keyed.mem_of_get?_ofList hfind)
    cases heq
    exact havoids source (List.mem_reverse.mp hsource) c' hc'

/-- Files that declare nothing but classes that no other class extends change nothing. -/
theorem runSources_append_idle
    (havoids : ∀ source ∈ sources, ∀ c ∈ pass.classesIn source,
      AvoidsNames (· ∈ names) c.supertypes)
    (hidle : ∀ source ∈ extra, (pass.findings source).Idle names) :
    pass.runSources (sources ++ extra) = pass.runSources sources := by
  have hdeclarations : extra.flatMap pass.pendingIn = [] :=
    List.flatMap_eq_nil_iff.mpr fun source hsource => by
      rw [pendingIn, (hidle source hsource).declarations, List.map_nil]
  have hproperties : (extra.flatMap fun source => (pass.findings source).properties) = [] :=
    List.flatMap_eq_nil_iff.mpr fun source hsource => (hidle source hsource).properties
  have hdiagnostics : (extra.flatMap fun source => (pass.findings source).diagnostics) = [] :=
    List.flatMap_eq_nil_iff.mpr fun source hsource => (hidle source hsource).diagnostics
  have hresults : pass.classResults (pass.hierarchyIn (sources ++ extra)) []
      (sources.flatMap pass.pendingIn) =
        pass.classResults (pass.hierarchyIn sources) [] (sources.flatMap pass.pendingIn) := by
    refine classResults_congr_hierarchy (fun p hp => ?_) []
    obtain ⟨source, hsource, hp⟩ := List.mem_flatMap.mp hp
    obtain ⟨d, hd, rfl⟩ := List.mem_map.mp hp
    obtain ⟨c, hc, -, hsupertypes, -⟩ := exists_mem_classesIn_of_mem_declarations hd
    exact ClassHierarchy.isComponent_eq (agreeOff_hierarchyIn havoids hidle)
      (hsupertypes ▸ havoids source hsource c hc)
  rw [runSources_eq_ok, runSources_eq_ok, List.flatMap_append, List.flatMap_append,
    List.flatMap_append, hdeclarations, hproperties, hdiagnostics, List.append_nil, List.append_nil,
    List.append_nil, hresults]

end Idle

/-! ## Texts that generated files take over -/

/-- A text of a source file that generated files take over, as it is written there. -/
inductive Copied (source : SourceText) : List Char → Prop
  | package : Copied source (pass.findings source).package.toList
  | imported {qualified : String} {givenName : Option String}
      (line : .single qualified givenName ∈ importLines (pass.context source).masked) :
      Copied source qualified.toList
  | className {d : Declaration} (declared : d ∈ (pass.findings source).declarations) :
      Copied source d.name.toList
  | parameterName {d : Declaration} {p : Parameter}
      (declared : d ∈ (pass.findings source).declarations) (parameter : p ∈ d.parameters) :
      Copied source p.name.toList
  | parameterType {d : Declaration} {type : List Char}
      (declared : d ∈ (pass.findings source).declarations)
      (written : IsWrittenType (pass.context source) d type) : Copied source type
  | default {d : Declaration} {name expression : String}
      (declared : d ∈ (pass.findings source).declarations)
      (recovered : (defaultExpressions d.name source.text.toList).get? name = some expression) :
      Copied source expression.toList
  | propertyType {head : Occurrence ClassHead} {type : List Char}
      (opened : head ∈ classHeads (pass.context source).masked)
      (written : type ∈ markedTypes head) : Copied source type

section Copied

variable {pass} {source : SourceText} (h : ∀ text, pass.Copied source text → Plain text)

include h

theorem copyable_readType {cs : List Char} (hcs : Plain cs) :
    (readType (pass.context source).imports [] cs).Copyable where
  render := plain_render_readType (Imports.dotted_ofText _) (fun name qualified himported => by
    obtain ⟨givenName, hline, -⟩ := Imports.exists_line_of_imported? himported
    exact h _ (.imported hline)) hcs
  names _ := isDottedChar_of_mem_typeNames (Imports.dotted_ofText _)

theorem copyable_of_mem_declarations {d : Declaration}
    (hd : d ∈ (pass.findings source).declarations) :
    (Pending.withDefaults ⟨d, some source.text⟩).Copyable where
  name := (isName_of_mem_declarations hd).2
  nameWords := (h _ (.className hd)).words
  package c hc := by
    change c ∈ d.package.toList at hc
    rw [(isName_of_mem_declarations hd).1] at hc
    exact isDottedChar_of_mem_package hc
  packageWords := by
    have hpackage := (h _ .package).words
    rwa [← (isName_of_mem_declarations hd).1] at hpackage
  parameters p hp := by
    obtain ⟨q, hq, rfl⟩ := List.mem_map.mp hp
    obtain ⟨type, htype, heq⟩ := exists_isWrittenType hd hq
    refine ⟨(h _ (.parameterName hd hq)).words, ?_, fun expression hexpression => ?_⟩
    · rw [heq]
      exact copyable_readType h (h _ (.parameterType hd htype))
    · exact h _ (.default hd hexpression)
  stars star hstar := by
    obtain ⟨c, -, -, -, hstars⟩ := exists_mem_classesIn_of_mem_declarations hd
    change star ∈ d.starImports at hstar
    rw [← hstars] at hstar
    exact (Imports.dotted_ofText _).stars star hstar

theorem copyable_of_mem_properties {p : Property} (hp : p ∈ (pass.findings source).properties) :
    p.Copyable := by
  obtain ⟨c, hc, hp⟩ := List.mem_flatMap.mp hp
  obtain ⟨head, hhead, rfl⟩ := List.mem_map.mp hc
  obtain ⟨type, htype, hreads⟩ := exists_type_of_mem_properties hp
  have hclass := (List.mem_filter.mp hhead).1
  refine ⟨hreads.name, ?_, ?_, ?_, ?_⟩
  · rw [hreads.package]
    exact (Imports.dotted_ofText _).package
  · rw [hreads.package]
    exact (h _ .package).words
  · rw [hreads.type]
    exact copyable_readType h (h _ (.propertyType hclass htype))
  · rw [hreads.stars]
    exact (Imports.dotted_ofText _).stars

end Copied

/-! ## Generated files -/

/-- The names of the factories of all declarations. -/
def factoryNames (sources : List SourceText) : List String :=
  sources.flatMap fun source => (pass.findings source).declarations.map (·.factoryName)

section Generated

variable {pass} {sources : List SourceText}
  (h : ∀ source ∈ sources, ∀ text, pass.Copied source text → Plain text)

include h

theorem idle_of_mem_classArtifacts {a : Artifact} (ha : a ∈ pass.classArtifacts sources)
    (path : String) :
    (pass.findings ⟨path, a.content⟩).Idle (pass.factoryNames sources) := by
  obtain ⟨result, hresult, ha⟩ := List.mem_filterMap.mp ha
  obtain ⟨p, hp, earlier, -, rfl⟩ := exists_resultOf_of_mem hresult
  obtain ⟨source, hsource, hp⟩ := List.mem_flatMap.mp hp
  obtain ⟨d, hd, rfl⟩ := List.mem_map.mp hp
  obtain ⟨-, -, -, hartifact⟩ :=
    (settles_resultOf pass _ earlier _).file a (ClassResult.artifact?_eq_some.mp ha)
  obtain ⟨⟨hnamed, -⟩, rfl⟩ := Declaration.valid_of_artifact? hartifact
  have hidle := FactoryFile.idle_planned (copyable_of_mem_declarations (h source hsource) hd) hnamed
    ((pass.hierarchyIn sources).isComponent d) pass.mode pass.policy path pass.convention
  rw [findings, FactoryFile.laidOut, String.toList_ofList]
  refine hidle.mono fun name hname => ?_
  rw [List.mem_singleton.mp hname]
  exact List.mem_flatMap.mpr ⟨source, hsource, List.mem_map.mpr ⟨d, hd, rfl⟩⟩

theorem idle_of_mem_bindingArtifacts {a : Artifact} (ha : a ∈ pass.bindingArtifacts sources)
    (path : String) : (pass.findings ⟨path, a.content⟩).Idle [] := by
  have hcopyable : ∀ p ∈ sources.flatMap fun source => (pass.findings source).properties,
      p.Copyable ∧ IsName p.owner.toList := by
    intro p hp
    obtain ⟨source, hsource, hp⟩ := List.mem_flatMap.mp hp
    exact ⟨copyable_of_mem_properties (h source hsource) hp, (isName_of_mem_properties hp).2⟩
  obtain ⟨part, hpart, ha⟩ := List.mem_flatMap.mp ha
  obtain ⟨⟨package, owner⟩, howner, rfl⟩ := List.mem_map.mp hpart
  obtain ⟨p, hp, -, rfl⟩ := BindingFile.mem_owners_iff.mp howner
  obtain ⟨file, hplan, rfl⟩ := Option.map_eq_some_iff.mp (Option.mem_toList.mp ha)
  rw [findings, BindingFile.laidOut, String.toList_ofList]
  exact BindingFile.idle_bindings hplan (hcopyable p hp).2
    (fun q hq => (hcopyable q (List.mem_filter.mp hq).1).1) path pass.convention

end Generated

/-- A pass that also reads the files of an earlier pass generates and reports the same, if the texts
that generated files take over are plain and no class extends a factory. -/
theorem runSources_generated {sources : List SourceText}
    (hsupertypes : ∀ source ∈ sources, ∀ c ∈ pass.classesIn source, ∀ t ∈ c.supertypes,
      t.simpleName ∉ pass.factoryNames sources)
    (hplain : ∀ source ∈ sources, ∀ text, pass.Copied source text → Plain text)
    (place : Artifact → String) :
    ∃ out, pass.runSources sources = .ok out ∧
      pass.runSources (sources ++ out.artifacts.map fun a => ⟨place a, a.content⟩) = .ok out := by
  obtain ⟨diagnostics, hrun⟩ := exists_runSources_eq_ok pass sources
  refine ⟨_, hrun, (runSources_append_idle hsupertypes fun source hsource => ?_).trans hrun⟩
  obtain ⟨a, ha, rfl⟩ := List.mem_map.mp hsource
  rcases List.mem_append.mp ha with ha | ha
  · exact idle_of_mem_classArtifacts hplain ha (place a)
  · exact (idle_of_mem_bindingArtifacts hplain ha (place a)).mono (List.nil_subset _)

/-! ### Files to read again -/

/-- All texts that generated files might take over. -/
def copiedTexts (source : SourceText) : List (List Char) :=
  let heads := classHeads (pass.context source).masked
  (pass.findings source).package.toList ::
    ((importLines (pass.context source).masked).filterMap fun
      | .single qualified _ => some qualified.toList
      | .star _ => none) ++
    ((pass.findings source).declarations.flatMap fun d =>
      d.name.toList :: d.parameters.map (·.name.toList) ++
        (defaultExpressions d.name source.text.toList).entries.map (·.2.toList)) ++
    (heads.flatMap fun head => (writtenParameters head).map (·.typeText) ++ markedTypes head)

theorem mem_copiedTexts {pass : Pass} {source : SourceText} {text : List Char}
    (h : pass.Copied source text) : text ∈ pass.copiedTexts source := by
  simp only [copiedTexts, List.cons_append, List.mem_cons, List.mem_append, List.mem_filterMap,
    List.mem_flatMap, List.mem_map]
  cases h with
  | package => exact .inl rfl
  | imported line => exact .inr (.inl (.inl ⟨_, line, rfl⟩))
  | className declared => exact .inr (.inl (.inr ⟨_, declared, .inl rfl⟩))
  | parameterName declared parameter =>
    exact .inr (.inl (.inr ⟨_, declared, .inr (.inl ⟨_, parameter, rfl⟩)⟩))
  | parameterType declared written =>
    obtain ⟨before, found, after, hat, t, ht, rfl⟩ := written
    exact .inr (.inr ⟨found, hat.mem_classHeads, .inl ⟨t, ht, rfl⟩⟩)
  | default declared recovered =>
    have hentry := (Keyed.findEntry_eq_some_iff (Keyed.ordered _)).mp recovered
    exact .inr (.inl (.inr ⟨_, declared, .inr (.inr ⟨_, hentry, rfl⟩)⟩))
  | propertyType opened written => exact .inr (.inr ⟨_, opened, .inr written⟩)

/-- A file with a default that names an imported class, and with a property that is bound. -/
def meterFile : SourceText :=
  ⟨"app/Meter.kt", "package app\n\nimport lib.Scale\n\n@GenDsl\nclass Meter(scale: Scale = " ++
    "Scale.of(10), @ExposeSignal val level: BindableSignal<Int>) : Panel()\n"⟩

theorem runSources_generated_meter :
    ∃ out, ({} : Pass).runSources [meterFile] = .ok out ∧
      ({} : Pass).runSources ([meterFile] ++ out.artifacts.map fun a =>
        ⟨a.relativePath, a.content⟩) = .ok out := by
  refine runSources_generated {} ?_ ?_ _
  · have hfactories : ({} : Pass).factoryNames [meterFile] = ["MeterFactory"] := by
      decide +kernel
    have hwritten : ∀ found ∈ classHeads (({} : Pass).context meterFile).masked,
        (Header.read found.stop found.rest).typeParameters = [] ∧
          ∀ cs ∈ (Header.read found.stop found.rest).supertypes,
            isDottedName (typeHead cs) = true ∧ TypeExpr.lastPart
              ((({} : Pass).context meterFile).imports.resolve (String.ofList (typeHead cs))) =
                "Panel" := by decide +kernel
    intro source hsource c hc t ht
    obtain rfl := List.mem_singleton.mp hsource
    obtain ⟨found, hfound, rfl⟩ := List.mem_map.mp hc
    obtain ⟨cs, hcs, rfl⟩ := List.mem_map.mp ht
    obtain ⟨htypeParameters, hsupertypes⟩ := hwritten found (List.mem_filter.mp hfound).1
    obtain ⟨hhead, hlast⟩ := hsupertypes cs hcs
    rw [hfactories, htypeParameters, readType_of_named hhead]
    simp [TypeExpr.simpleName, hlast]
  · intro source hsource text hcopied
    obtain rfl := List.mem_singleton.mp hsource
    have hplain : ∀ text ∈ ({} : Pass).copiedTexts meterFile, Plain text := by decide +kernel
    exact hplain text (mem_copiedTexts hcopied)

/-! ### Markers with a package -/

/-- A file with a default that holds a marker with a package, inside a string. -/
def hintFile : SourceText :=
  ⟨"app/Card.kt",
    "package app\n@GenDsl class Card(hint: String = \"@lib.ExposeSignal private val p\")\n"⟩

/-- The class in that file. -/
def hintDeclaration : Declaration :=
  { name := "Card"
    package := "app"
    parameters := [⟨"hint", { name := "kotlin.String" }, .exposed, true, none⟩]
    location := ⟨"app/Card.kt", 2⟩ }

/-- The lines of the file that is generated for the class. -/
def hintFactoryLines : List String := [
  "package app", "", "import io.quarkus.arc.Unremovable",
  "import jakarta.enterprise.context.ApplicationScoped", "", "@ApplicationScoped", "@Unremovable",
  "class CardFactory \x7b", "", "    fun create(",
  "        hint: String = \"@lib.ExposeSignal private val p\"", "    ): Card \x7b",
  "        return Card(hint)", "    \x7d", "\x7d"]

theorem declarations_hintFile :
    (({} : Pass).findings hintFile).declarations = [hintDeclaration] := by
  have hseen : (({} : Pass).findings hintFile).declarations.map (fun d =>
      (d.name, d.package, d.supertypes.length, d.starImports, d.location)) =
        [("Card", "app", 0, [], ⟨"app/Card.kt", 2⟩)] := by decide +kernel
  have hparts : (({} : Pass).findings hintFile).declarations.map (fun d =>
      d.parameters.map fun p => (p.name, p.role, p.hasDefault, p.defaultExpression)) =
        [[("hint", .exposed, true, none)]] := by decide +kernel
  have htexts : ∀ found ∈ classHeads (({} : Pass).context hintFile).masked,
      ∀ t ∈ writtenParameters found, t.typeText = "String ".toList := by decide +kernel
  have hread : readType (({} : Pass).context hintFile).imports [] "String ".toList =
      { name := "kotlin.String" } := by
    have hname : (({} : Pass).context hintFile).imports.resolve "String" = "kotlin.String" := by
      decide
    have hpieces : typePieces "String ".toList = [] := by decide
    have hhead : typeHead "String ".toList = "String".toList := by decide
    have hmark : (splitNullable (trim "String ".toList)).2 = false := by decide
    rw [readType_of_named (by decide), hpieces, hhead, hmark, String.ofList_toList, hname,
      List.map_nil]
  obtain ⟨d, others, hdeclarations, hd, hothers⟩ := List.map_eq_cons_iff.mp hseen
  obtain rfl := List.map_eq_nil_iff.mp hothers
  rw [hdeclarations, List.map_singleton, List.singleton_inj] at hparts
  obtain ⟨p, others, hparameters, hp, hothers⟩ := List.map_eq_cons_iff.mp hparts
  obtain rfl := List.map_eq_nil_iff.mp hothers
  have htype : p.type = { name := "kotlin.String" } := by
    obtain ⟨cs, ⟨before, found, after, hat, t, ht, rfl⟩, htype⟩ := exists_isWrittenType
      (hdeclarations ▸ List.mem_singleton_self d) (hparameters ▸ List.mem_singleton_self p)
    rw [htype, htexts found hat.mem_classHeads t ht]
    exact hread
  obtain ⟨name, package, parameters, supertypes, stars, location⟩ := d
  obtain ⟨pname, type, role, hasDefault, default⟩ := p
  simp only [Prod.mk.injEq, List.length_eq_zero_iff] at hd hp hparameters htype
  obtain ⟨rfl, rfl, rfl, rfl, rfl⟩ := hd
  obtain ⟨rfl, rfl, rfl, rfl⟩ := hp
  rw [hdeclarations, hparameters, htype]
  rfl

theorem runSources_hintFile :
    ∃ a : Artifact, ({} : Pass).runSources [hintFile] = .ok ⟨[a], []⟩ ∧
      a.relativePath = "app/CardFactory.kt" ∧
      a.content = String.ofList (layout hintFactoryLines) := by
  have hcomponent :
      (({} : Pass).hierarchyIn [hintFile]).isComponent hintDeclaration = false := by
    simp [ClassHierarchy.isComponent, ClassHierarchy.targets, hintDeclaration,
      ClassHierarchy.leadsToComponent]
  obtain ⟨file, hplan, hpath, hlines⟩ : ∃ file : FactoryFile,
      FactoryFile.plan (Pending.withDefaults ⟨hintDeclaration, some hintFile.text⟩) false
        default default = .ok (some file) ∧
      file.laidOut.relativePath = "app/CardFactory.kt" ∧ file.lines = hintFactoryLines :=
    ⟨_, rfl, by decide +kernel, by decide +kernel⟩
  have hproperties : (({} : Pass).findings hintFile).properties = [] :=
    List.eq_nil_of_length_eq_zero (by decide +kernel)
  have hdiagnostics : (({} : Pass).findings hintFile).diagnostics = [] :=
    List.eq_nil_of_length_eq_zero (by decide +kernel)
  have hbindings : BindingFile.allGenerated [] = {} := by
    simp [BindingFile.allGenerated, BindingFile.owners]
  refine ⟨file.laidOut, ?_, hpath, by rw [FactoryFile.laidOut, hlines]⟩
  rw [runSources_eq_ok]
  simp only [List.flatMap_cons, List.flatMap_nil, List.append_nil, hproperties, hdiagnostics,
    pendingIn, declarations_hintFile, List.map_cons, List.map_nil, classResults, resultOf,
    List.contains_nil, Bool.false_eq_true, if_false, hcomponent, hplan, hbindings]
  rfl

/-- That the sign stands nowhere right in front of the marker is not enough. Here a marker with a
package stands in a default, which the generated file takes over, and the property behind it is
reported when that file is read. -/
theorem hintFile_reported :
    (∀ text, ({} : Pass).Copied hintFile text →
      FreeOf classWords text ∧ ¬"@ExposeSignal".toList <:+: text) ∧
    (∀ c ∈ ({} : Pass).classesIn hintFile,
      TypeExpr.lastPart c.qualifiedName ∉ ({} : Pass).factoryNames [hintFile] ∧
        ∀ t ∈ c.supertypes, t.simpleName ∉ ({} : Pass).factoryNames [hintFile]) ∧
    ∃ out out', ({} : Pass).runSources [hintFile] = .ok out ∧
      ({} : Pass).runSources ([hintFile] ++ out.artifacts.map fun a =>
        ⟨a.relativePath, a.content⟩) = .ok out' ∧
      out'.diagnostics ≠ out.diagnostics := by
  refine ⟨fun text hcopied => ?_, fun c hc => ?_, ?_⟩
  · have hfree : ∀ text ∈ ({} : Pass).copiedTexts hintFile,
        FreeOf classWords text ∧ ¬"@ExposeSignal".toList <:+: text := by decide +kernel
    exact hfree text (mem_copiedTexts hcopied)
  · have hclasses : (({} : Pass).classesIn hintFile).map (fun c =>
        (c.qualifiedName, c.supertypes.length)) = [("app.Card", 0)] := by decide
    have hfactories : ({} : Pass).factoryNames [hintFile] = ["CardFactory"] := by decide +kernel
    have hclass := List.mem_map_of_mem (f := fun c => (c.qualifiedName, c.supertypes.length)) hc
    rw [hclasses, List.mem_singleton, Prod.mk.injEq, List.length_eq_zero_iff] at hclass
    obtain ⟨hname, hsupertypes⟩ := hclass
    rw [hname, hsupertypes, hfactories]
    exact ⟨by decide, fun t ht => nomatch ht⟩
  · obtain ⟨a, hrun, hpath, hcontent⟩ := runSources_hintFile
    refine ⟨_, _, hrun, runSources_eq_ok .., ?_⟩
    have hview : (FileFindings.read "app/CardFactory.kt" (layout hintFactoryLines)
        default).properties.map (·.visibility) = [.inClass] := by decide +kernel
    obtain ⟨p, others, hproperties, hvisibility, -⟩ := List.map_eq_cons_iff.mp hview
    have hmem : p ∈ (({} : Pass).findings ⟨a.relativePath, a.content⟩).properties := by
      rw [findings, hpath, hcontent, String.toList_ofList]
      exact hproperties ▸ List.mem_cons_self
    have hrestricted : p.bindable = .error (.restricted .inClass) := by
      rw [Property.bindable, hvisibility]
      rfl
    exact List.ne_nil_of_mem (List.mem_append_right _ (BindingFile.mem_diagnostics_allGenerated
      (List.mem_flatMap.mpr ⟨_, List.mem_append_right _ List.mem_cons_self, hmem⟩) hrestricted))

end Pass

end ComponentWiring

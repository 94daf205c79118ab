import ComponentWiring.Proofs.Pass.StarOrder
import ComponentWiring.Proofs.Pass.WrittenClasses
import ComponentWiring.Proofs.Source.ImportOrder

/-!
The order of import lines does not matter to a pass (`runSources_withImports`), as long as no two of
them explain the same name and the text behind them does not give the last one an alias.

Comments are blanked out before import lines are read. So a comment in front of the word `as` does
not keep it from being read as part of the last import line, and then it matters which line that is
(`aliasBehindComment_reported`).
-/

namespace ComponentWiring

open Text Source

namespace Source.WrittenUnit

/-- The file at a place. -/
def source (u : WrittenUnit) (path : String) : SourceText :=
  ⟨path, String.ofList u.text⟩

end Source.WrittenUnit

namespace Pass

theorem saysSame_withImports (pass : Pass) (path : String) {u : WrittenUnit} (h : u.Fits)
    {imports : List WrittenImport} (hperm : u.imports.Perm imports) :
    pass.SaysSame (u.source path) ((u.withImports imports).source path) := by
  by_cases hne : u.imports = []
  · -- without lines between them, a package called `data` is a modifier of the class behind it
    have hsame : u.withImports imports = u := by
      have hnil : imports = [] := (hne ▸ hperm).nil_eq.symm
      simp [WrittenUnit.withImports, hnil, ← hne]
    exact hsame ▸ .refl pass _
  · constructor
    · simpa only [findings, WrittenUnit.source, String.toList_ofList] using
        h.starPerm_read hne hperm path pass.convention
    · simpa only [WrittenUnit.source, String.toList_ofList] using
        h.defaultExpressions_eq hne hperm

/-- The order of import lines does not matter: with the lines at the start of a file in another
order a pass returns the same files and the same reports, whatever other files it goes over. -/
theorem runSources_withImports (pass : Pass) (before after : List SourceText) (path : String)
    {u : WrittenUnit} (h : u.Fits) {imports : List WrittenImport}
    (hperm : u.imports.Perm imports) :
    ∃ out, pass.runSources (before ++ u.source path :: after) = .ok out ∧
      pass.runSources (before ++ (u.withImports imports).source path :: after) = .ok out := by
  have hsame : pass.runSources (before ++ (u.withImports imports).source path :: after) =
      pass.runSources (before ++ u.source path :: after) := by
    refine runSources_eq_of_saysSame (List.rel_append ?_ (.cons ?_ ?_))
    · exact List.forall₂_same.mpr fun source _ => .refl pass source
    · exact saysSame_withImports pass path h hperm
    · exact List.forall₂_same.mpr fun source _ => .refl pass source
  exact ⟨_, runSources_eq_ok pass _, hsame.trans (runSources_eq_ok pass _)⟩

/-- A file with import lines of every form. -/
def panelUnit : WrittenUnit where
  package := some "app.data".toList
  imports := [.single "lib.Clock".toList, .star "com.vaadin.flow.component.html".toList,
    .renamed "lib.Panel".toList "Base".toList, .star "lib.ui".toList]
  further := "@GenDsl\nclass Panel(clock: Clock, base: Base) : Div()\n".toList

theorem runSources_withImports_panelUnit :
    panelUnit.Fits ∧ panelUnit.imports.Perm panelUnit.imports.reverse ∧
      ∃ out, ({} : Pass).runSources [panelUnit.source "app/Panel.kt"] = .ok out ∧
        ({} : Pass).runSources
          [(panelUnit.withImports panelUnit.imports.reverse).source "app/Panel.kt"] = .ok out := by
  have hfits : panelUnit.Fits := by decide
  have hperm : panelUnit.imports.Perm panelUnit.imports.reverse := (List.reverse_perm _).symm
  exact ⟨hfits, hperm, runSources_withImports {} [] [] "app/Panel.kt" hfits hperm⟩

/-! ## An alias behind a comment -/

/-- A file whose last import line gets an alias from behind a comment. -/
def aliasBehindComment : WrittenUnit where
  package := none
  imports := [.single "lib.Left".toList, .single "lib.Right".toList]
  further := "/* renamed */ as Panel\nclass Card(@ExposeSignal val panel: Panel)\n".toList

/-- A file with nothing in it but one property that cannot be bound. -/
theorem runSources_of_fault {pass : Pass} {source : SourceText} {p : Property}
    {fault : PropertyFault} (hdeclarations : (pass.findings source).declarations = [])
    (hdiagnostics : (pass.findings source).diagnostics = [])
    (hproperties : (pass.findings source).properties = [p]) (hfault : p.bindable = .error fault) :
    pass.runSources [source] = .ok ⟨[], [fault.diagnostic p]⟩ := by
  have hbindings : BindingFile.allGenerated [p] = ⟨[], [fault.diagnostic p]⟩ := by
    simp [BindingFile.allGenerated, BindingFile.owners, BindingFile.generated, BindingFile.plan?,
      BindingFile.accepted, BindingFile.rejections, hfault, List.eraseDups_cons, Except.toOption]
  rw [runSources_eq_ok]
  simp only [List.flatMap_cons, List.flatMap_nil, List.append_nil, hproperties, hdiagnostics,
    pendingIn, hdeclarations, List.map_nil, hbindings]
  rfl

/-- What is reported if the type of the property stands for `name`. -/
theorem runSources_of_panel (path : String) (text : List Char) (name : String)
    (hfound : (fun f : FileFindings => (f.declarations.length, f.diagnostics.length,
        f.properties.map fun p => (p.owner, p.name, p.visibility)))
      (FileFindings.read path text .markToInject) = (0, 0, [("Card", "panel", .everywhere)]))
    (hwritten : ∀ found ∈ classHeads (blankComments text), ∀ cs ∈ markedTypes found,
      cs = "Panel".toList)
    (hname : (Imports.ofText (blankComments text)).resolve "Panel" = name)
    (hkind : SignalKind.of? { name } = none) :
    ∃ p : Property, p.owner = "Card" ∧ p.name = "panel" ∧ p.type = { name } ∧
      ({} : Pass).runSources [⟨path, String.ofList text⟩] =
        .ok ⟨[], [(PropertyFault.noWrapper p.declaredType).diagnostic p]⟩ := by
  have hread : ({} : Pass).findings ⟨path, String.ofList text⟩ =
      FileFindings.read path text .markToInject := by
    rw [findings, String.toList_ofList]
    rfl
  simp only [Prod.mk.injEq, List.length_eq_zero_iff, ← hread] at hfound
  obtain ⟨hdeclarations, hdiagnostics, hproperties⟩ := hfound
  obtain ⟨p, others, hp, hparts, hothers⟩ := List.map_eq_cons_iff.mp hproperties
  obtain rfl := List.map_eq_nil_iff.mp hothers
  simp only [Prod.mk.injEq] at hparts
  obtain ⟨howner, hpname, hvisible⟩ := hparts
  have htype : p.type = { name } := by
    have hmem : p ∈ (FileFindings.read path text .markToInject).properties :=
      hread ▸ hp ▸ List.mem_singleton_self p
    obtain ⟨c, hc, hmem⟩ := List.mem_flatMap.mp hmem
    obtain ⟨found, hfound, rfl⟩ := List.mem_map.mp hc
    obtain ⟨cs, hcs, hreads⟩ := exists_type_of_mem_properties hmem
    obtain rfl := hwritten found (List.mem_of_mem_filter hfound) cs hcs
    have hhead : typeHead "Panel".toList = "Panel".toList := by decide
    have hpieces : typePieces "Panel".toList = [] := by decide
    have hmark : (splitNullable (trim "Panel".toList)).2 = false := by decide
    rw [hreads.type, readType_of_named (by decide), hhead, hpieces, hmark, String.ofList_toList,
      List.map_nil]
    exact congrArg (fun name => ({ name } : TypeExpr)) hname
  have hfault : p.bindable = .error (.noWrapper p.declaredType) := by
    have hnone : p.signalKind? = none := by rw [Property.signalKind?, htype, hkind]
    simp only [Property.bindable, hvisible, hnone, ne_eq, not_true_eq_false, if_false]
  exact ⟨p, howner, hpname, htype, runSources_of_fault hdeclarations hdiagnostics hp hfault⟩

/-- That the first word of the text behind the lines, with its comments, is another one is not
enough. Here the comment is blanked out, and the type of the property is the one that the last
line imports. -/
theorem aliasBehindComment_reported :
    (∀ i ∈ aliasBehindComment.imports, i.Fits) ∧
    (aliasBehindComment.imports.filterMap fun i => i.line.name?).Nodup ∧
    (words aliasBehindComment.further).head? ≠ some "as".toList ∧
    aliasBehindComment.imports.Perm aliasBehindComment.imports.reverse ∧
    ({} : Pass).runSources [(aliasBehindComment.withImports
        aliasBehindComment.imports.reverse).source "app/Card.kt"] ≠
      ({} : Pass).runSources [aliasBehindComment.source "app/Card.kt"] := by
  refine ⟨by decide, by decide, by decide, (List.reverse_perm _).symm, fun heq => ?_⟩
  obtain ⟨p, howner, hname, htype, hrun⟩ := runSources_of_panel "app/Card.kt"
    aliasBehindComment.text "lib.Right" (by decide +kernel) (by decide +kernel) (by decide +kernel)
    (by decide)
  obtain ⟨p', howner', hname', htype', hrun'⟩ := runSources_of_panel "app/Card.kt"
    (aliasBehindComment.withImports aliasBehindComment.imports.reverse).text "lib.Left"
    (by decide +kernel) (by decide +kernel) (by decide +kernel) (by decide)
  rw [WrittenUnit.source, WrittenUnit.source, hrun, hrun', Except.ok.injEq, Generated.mk.injEq,
    List.singleton_inj] at heq
  have hmessage := congrArg Diagnostic.message heq.2
  simp only [PropertyFault.diagnostic, howner, hname, howner', hname', Property.declaredType, htype,
    htype'] at hmessage
  exact absurd hmessage (by decide)

end Pass

end ComponentWiring

import ComponentWiring.Proofs.Code.DefaultScopes
import ComponentWiring.Proofs.Code.ImportBlocks
import ComponentWiring.Proofs.Pass.WrittenClasses

/-!
Imports that are carried over. A name that is written in the type of a parameter can be used in the
generated file if it is imported in the source file: `artifact?_carriesImports` follows it from its
line through the table of imports (`imported?_of_lastLine`), through the type that is read
(`mem_typeNames_of_written`) and through the import block (`available_of_mem`).

It is the name that is carried over that counts, not the line. A dotted name that stands for a type
is imported as a whole and then used by its last part. Names in default expressions are not looked
at; `panel_losesImports` lists what is lost with them and with lines that a later line replaces.
-/

namespace ComponentWiring

open Text Source TypeExpr

namespace Source

/-! ## Names in a written type -/

/-- A name that stands in a text with nothing around it that could belong to it. -/
def StandsIn (name cs : List Char) : Prop :=
  isDottedName name = true ∧ ∃ front back, cs = front ++ name ++ back ∧
    (∀ c ∈ front.getLast?, isNamePart c = false) ∧ EndsName back

/-- A name that stands for a type, or for a type argument at any depth, outside any part that is
kept as it is written. -/
inductive NamesType (name : List Char) : List Char → Prop
  | head {cs : List Char} (named : isDottedName (typeHead cs) = true) (same : typeHead cs = name) :
      NamesType name cs
  | argument {cs piece : List Char} (named : isDottedName (typeHead cs) = true)
      (mem : piece ∈ typePieces cs) (inside : NamesType name piece) : NamesType name cs

theorem StandsIn.mem_writtenNames {name cs : List Char} (h : StandsIn name cs) :
    name ∈ writtenNames cs := by
  obtain ⟨hname, front, back, rfl, hfront, hback⟩ := h
  exact Source.mem_writtenNames hname hfront hback

theorem NamesType.mem_writtenNames {name cs : List Char} (h : NamesType name cs) :
    name ∈ writtenNames cs := by
  induction h with
  | head named same =>
    rw [writtenNames_eq_of_named named, same]
    exact List.mem_cons_self
  | argument named mem _ ih =>
    rw [writtenNames_eq_of_named named]
    exact List.mem_cons_of_mem _ (List.mem_flatMap.mpr ⟨_, mem, ih⟩)

/-! ## From an import line to the import block -/

open FactoryFile ImportBlock

variable {text : List Char} {d : Declaration} {exportable : Bool} {mode : Mode} {policy : Policy}
  {a : Artifact}

/-- An imported name that is written in a type is among the names of the type, together with the
parts behind it. -/
theorem mem_typeNames_of_import {file : FileContext} {cs members : List Char} {qualified : String}
    (himported : file.imports.imported? (lastPart qualified) = some qualified)
    (hmembers : ∀ c ∈ members.head?, c = '.')
    (hwritten : (lastPart qualified).toList ++ members ∈ writtenNames cs) :
    qualified ++ String.ofList members ∈ (readType file.imports [] cs).typeNames := by
  have hdot : '.' ∉ (lastPart qualified).toList := dot_not_mem_lastPart qualified
  have hfirst : beforeFirst '.' ((lastPart qualified).toList ++ members) =
      (lastPart qualified).toList := by
    refine takeWhile_append_of_head (fun c hc => ?_) fun c hc => ?_
    · have hne : c ≠ '.' := by
        rintro rfl
        exact hdot hc
      simpa using hne
    · simp [hmembers c hc]
  rw [← Imports.resolve_append hdot hmembers himported]
  refine mem_typeNames_of_written hwritten ?_
  rw [hfirst, String.ofList_toList, himported]
  rfl

/-- Every file that is generated for a declaration prints the planned code. A name that a written
type of the declaration takes from an import of its source file can be used there: the imported name
itself, wherever it stands in the type, and a member of it, where it stands for a type. -/
theorem artifact?_carriesImports (path : String) (fallback : Convention)
    (h : (d.withDefaults (defaultExpressions d.name text)).artifact? exportable mode policy =
      .ok (some a)) :
    let file := FileContext.ofText path text fallback
    let code :=
      plannedCode (d.withDefaults (defaultExpressions d.name text)) exportable mode policy
    a = (ofCode code).laidOut ∧
      ∀ earlier qualified later, importLines file.masked =
          earlier ++ .single qualified none :: later →
        (∀ line ∈ later, line.name? ≠ some (lastPart qualified)) →
        ∀ cs, IsWrittenType file d cs → ∀ members : List Char, (∀ c ∈ members.head?, c = '.') →
          (NamesType ((lastPart qualified).toList ++ members) cs ∨
            members = [] ∧ StandsIn (lastPart qualified).toList cs) →
          isImportable (qualified ++ String.ofList members) = true →
          Available code.imports d.package (qualified ++ String.ofList members) := by
  intro file code
  refine ⟨Declaration.eq_plannedCode_of_artifact? h, ?_⟩
  intro earlier qualified later hlines hlast cs hcs members hmembers hname himportable
  have himported : file.imports.imported? (lastPart qualified) = some qualified :=
    Imports.imported?_of_lastLine hlines hlast
  have hwritten : (lastPart qualified).toList ++ members ∈ writtenNames cs := by
    rcases hname with hnames | ⟨rfl, hstands⟩
    · exact hnames.mem_writtenNames
    · rw [List.append_nil]
      exact hstands.mem_writtenNames
  obtain ⟨p, hp, htype⟩ := exists_parameter_of_isWrittenType hcs
  have hmem := mem_typeNames_of_import himported hmembers hwritten
  rw [← htype] at hmem
  have hdot : '.' ∈ (qualified ++ String.ofList members).toList := by
    simpa [isImportable] using (Bool.and_eq_true_iff.mp himportable).1
  refine available_of_mem ?_ hdot
  rw [importNames_withDefaults]
  exact mem_importNames_iff.mpr (.inl ⟨himportable, p, hp, hmem⟩)

/-- A file with imports of all kinds. -/
def panel : List Char :=
  ["package app\n",
    "import lib.Limits\n",
    "import lib.Outer\n",
    "import old.Repo\n",
    "import lib.Repo\n",
    "import Plain\n",
    "import java.lang.management.MemoryMXBean\n",
    "import lib.Größe\n",
    "@GenDsl class Panel(outer: Outer.Inner,\n",
    "  click: (Outer.Inner) -> Repo,\n",
    "  plain: Plain, memory: MemoryMXBean,\n",
    "  size: Größe, limit: Int = Limits.MAX)\n"].flatMap String.toList

/-- The file of `panel`. -/
def panelFile : FileContext :=
  .ofText "app/Panel.kt" panel .markToInject

theorem importLines_panel : importLines panelFile.masked =
    [.single "lib.Limits" none, .single "lib.Outer" none, .single "old.Repo" none,
      .single "lib.Repo" none, .single "Plain" none,
      .single "java.lang.management.MemoryMXBean" none, .single "lib.Größe" none] := by
  decide +kernel

/-- The class in `panel`, with its default. -/
def withPanelDefaults (d : Declaration) : Declaration :=
  d.withDefaults (defaultExpressions d.name panel)

/-- The code that is generated for the class in `panel`. -/
def panelCode (d : Declaration) : FileCode :=
  plannedCode (withPanelDefaults d) true .spring .alwaysFactory

/-- The types that are written in `panel`. -/
def panelTypes : List (List Char) :=
  ["Outer.Inner".toList, "(Outer.Inner) -> Repo".toList, "Plain".toList, "MemoryMXBean".toList,
    "Größe".toList, "Int ".toList]

/-- The import lines of the code that is generated for the class in `panel`. -/
def panelImports : List String :=
  ["import com.github.fenrur.vaadin.codegen.VaadinDsl",
    "import com.vaadin.flow.component.HasComponents",
    "import lib.Outer.Inner",
    "import lib.Repo",
    "import org.springframework.context.ApplicationContext",
    "import org.springframework.stereotype.Component"]

/-- The parameters of the builder function that is generated for the class in `panel`. -/
def panelParameters : List String :=
  ["context: ApplicationContext", "outer: Inner", "click: (Outer.Inner) -> Repo", "plain: Plain",
    "memory: MemoryMXBean", "size: Größe", "limit: Int = Limits.MAX",
    "block: Panel.() -> Unit = \x7b\x7d"]

theorem exists_generated_panel : ∃ d ∈ (FileFindings.read "app/Panel.kt" panel
      .markToInject).declarations,
    (withPanelDefaults d).artifact? true .spring .alwaysFactory =
      .ok (some (ofCode (panelCode d)).laidOut) ∧
    (∀ cs ∈ panelTypes, IsWrittenType panelFile d cs) ∧
    d.package = "app" ∧ (panelCode d).imports = panelImports ∧
    ∃ builder, (panelCode d).builder = some builder ∧
      builder.parameters.map Binder.text = panelParameters := by
  have hseen : declarationAt? panelFile (fun d => (d.package, (panelCode d).imports,
      (plan (withPanelDefaults d) true .spring .alwaysFactory).toOption.any Option.isSome,
      (panelCode d).builder.map (·.parameters.map Binder.text))) 0 =
        some ("app", panelImports, true, some panelParameters) := by decide +kernel
  have htexts : (classHeads panelFile.masked)[0]?.map
      (fun found => (writtenParameters found).map (·.typeText)) = some panelTypes := by
    decide +kernel
  obtain ⟨d, before, found, after, hat, hfound, hseen⟩ := exists_readAt_of_declarationAt? hseen
  rw [hfound, Option.map_some, Option.some.injEq] at htexts
  simp only [Prod.mk.injEq] at hseen
  obtain ⟨hpackage, himports, hplan, hbuilder⟩ := hseen
  refine ⟨d, mem_declarations_iff.mpr ⟨before, found, after, hat⟩,
    Declaration.artifact?_of_plan hplan, fun cs hcs => ?_, hpackage, himports,
    Option.map_eq_some_iff.mp hbuilder⟩
  rw [← htexts] at hcs
  exact ⟨before, found, after, hat, List.mem_map.mp hcs⟩

/-- The types `Outer.Inner` and `Repo` can be used in the file that is generated for this class. -/
theorem artifact?_carriesImports_panel : ∃ d ∈ (FileFindings.read "app/Panel.kt" panel
      .markToInject).declarations,
    (withPanelDefaults d).artifact? true .spring .alwaysFactory =
      .ok (some (ofCode (panelCode d)).laidOut) ∧
    Available (panelCode d).imports d.package "lib.Outer.Inner" ∧
    Available (panelCode d).imports d.package "lib.Repo" := by
  obtain ⟨d, hd, hartifact, hwritten, -⟩ := exists_generated_panel
  obtain ⟨-, havailable⟩ := artifact?_carriesImports "app/Panel.kt" .markToInject hartifact
  have houter : IsWrittenType panelFile d "Outer.Inner".toList :=
    hwritten _ (by simp [panelTypes])
  have hclick : IsWrittenType panelFile d "(Outer.Inner) -> Repo".toList :=
    hwritten _ (by simp [panelTypes])
  refine ⟨d, hd, hartifact, ?_, ?_⟩
  · have hnamed : NamesType "Outer.Inner".toList "Outer.Inner".toList :=
      .head (by decide +kernel) (by decide +kernel)
    exact havailable [_] "lib.Outer" _ importLines_panel (by decide +kernel) _ houter
      ".Inner".toList (by simp) (.inl hnamed) (by decide +kernel)
  · have hstands : StandsIn "Repo".toList "(Outer.Inner) -> Repo".toList :=
      ⟨by decide +kernel, "(Outer.Inner) -> ".toList, [], by simp, by simp; decide, by simp, rfl⟩
    exact havailable [_, _, _] "lib.Repo" _ importLines_panel (by decide +kernel) _ hclick []
      (by simp) (.inr ⟨rfl, hstands⟩) (by decide +kernel)

/-- The first parts of the dotted names that stand in a text outside literals. -/
def firstParts (cs : List Char) : List String :=
  ((blankLiterals .code cs).splitOnP fun c => !isDottedChar c).map fun name =>
    String.ofList (beforeFirst '.' name)

/-- Imports of `panel`, each with a text that takes a name from it. -/
def panelLosses : List (String × String) :=
  [("lib.Limits", "Limits.MAX"), ("lib.Outer", "Outer.Inner"),
    ("lib.Outer", "(Outer.Inner) -> Repo"), ("old.Repo", "(Outer.Inner) -> Repo"),
    ("Plain", "Plain"), ("java.lang.management.MemoryMXBean", "MemoryMXBean"),
    ("lib.Größe", "Größe")]

/-- None of these imports can be used in the file that is generated for this class. -/
theorem panel_losesImports : ∃ d ∈ (FileFindings.read "app/Panel.kt" panel
      .markToInject).declarations, ∃ builder,
    (withPanelDefaults d).artifact? true .spring .alwaysFactory =
      .ok (some (ofCode (panelCode d)).laidOut) ∧ (panelCode d).builder = some builder ∧
    ∀ lost ∈ panelLosses, .single lost.1 none ∈ importLines panelFile.masked ∧
      lastPart lost.1 ∈ firstParts lost.2.toList ∧
      (IsWrittenType panelFile d lost.2.toList ∨
        "limit: Int = " ++ lost.2 ∈ builder.parameters.map Binder.text) ∧
      ¬Available (panelCode d).imports d.package lost.1 := by
  obtain ⟨d, hd, hartifact, hwritten, hpackage, himports, builder, hbuilder, hparameters⟩ :=
    exists_generated_panel
  refine ⟨d, hd, builder, hartifact, hbuilder, fun lost hlost => ?_⟩
  have himported : ∀ lost ∈ panelLosses, .single lost.1 none ∈ importLines panelFile.masked ∧
      lastPart lost.1 ∈ firstParts lost.2.toList := by
    rw [importLines_panel]
    decide +kernel
  have hplace : ∀ lost ∈ panelLosses, lost.2.toList ∈ panelTypes ∨
      "limit: Int = " ++ lost.2 ∈ panelParameters := by decide +kernel
  have hlosses : ∀ lost ∈ panelLosses, ¬Available panelImports "app" lost.1 := by decide +kernel
  rw [himports, hpackage, hparameters]
  exact ⟨(himported lost hlost).1, (himported lost hlost).2,
    (hplace lost hlost).imp_left (hwritten _), hlosses lost hlost⟩

end Source

end ComponentWiring

import ComponentWiring.Proofs.Code.LaidOut
import ComponentWiring.Proofs.Code.TemplateBlocks

/-!
The texts of the two templates that are there from the start. They are the built-in templates as
they are written (`written_factoryFile`, `written_bindingFile`), so that reading them gives
templates that lay out alike. What is rendered with either is therefore the lines of the file
(`renders_texts`): rendering never fails, and every value stands in its line as it is, whatever it
looks like.
-/

namespace ComponentWiring

namespace Template

/-- A tag in its braces. -/
def braced (inside : String) : String :=
  "\x7b\x7b" ++ inside ++ "\x7d\x7d"

/-- The text of the template for the file of a class. -/
def factoryText : String :=
  String.ofList <| layout [
    braced "#if package",
    "package " ++ braced "package",
    "",
    braced "/if",
    braced "#each imports",
    braced "this",
    braced "/each",
    "",
    braced "#if factory",
    braced "#each factory.annotations",
    braced "this",
    braced "/each",
    braced "#if factory.fields",
    "class " ++ braced "factory.name" ++ "(",
    braced "#each factory.fields",
    "    " ++ braced "this",
    braced "/each",
    ") \x7b",
    braced "else",
    "class " ++ braced "factory.name" ++ " \x7b",
    braced "/if",
    "",
    braced "#if factory.create_params",
    "    fun create(",
    braced "#each factory.create_params",
    "        " ++ braced "this",
    braced "/each",
    "    ): " ++ braced "target" ++ " \x7b",
    braced "else",
    "    fun create(): " ++ braced "target" ++ " \x7b",
    braced "/if",
    "        return " ++ braced "target" ++ "(" ++ braced "factory.arguments" ++ ")",
    "    \x7d",
    "\x7d",
    braced "/if",
    braced "#if builder",
    braced "#if factory",
    "",
    braced "/if",
    "@VaadinDsl",
    "fun HasComponents." ++ braced "builder.name" ++ "(",
    braced "#each builder.params",
    "    " ++ braced "this",
    braced "/each",
    "): " ++ braced "target" ++ " \x7b",
    braced "#each builder.body",
    "    " ++ braced "this",
    braced "/each",
    "\x7d",
    braced "/if"]

/-- The text of the template for the file of bound properties. -/
def bindingsText : String :=
  String.ofList <| layout [
    braced "#if package",
    "package " ++ braced "package",
    "",
    braced "/if",
    braced "#each imports",
    braced "this",
    braced "/each",
    braced "#each functions",
    "",
    "/**",
    " * Binds the given [signal] to the [" ++ braced "property" ++ "] property.",
    " *",
    " * @param signal the signal to bind",
    " */",
    "fun " ++ braced "owner" ++ "." ++ braced "property" ++ "(signal: " ++ braced "signal_type" ++
      ") \x7b",
    "    this." ++ braced "property" ++ ".bindTo(signal)",
    "\x7d",
    braced "/each"]

theorem isPlain_factoryFile : IsPlain factoryFile := by decide +kernel

theorem isPlain_bindingFile : IsPlain bindingFile := by decide +kernel

/-- The text of the first template is that template as it is written. -/
theorem written_factoryFile : written factoryFile = factoryText.toList := by
  rw [factoryText, String.toList_ofList]
  decide +kernel

/-- The text of the second template is that template as it is written. -/
theorem written_bindingFile : written bindingFile = bindingsText.toList := by
  rw [bindingsText, String.toList_ofList]
  decide +kernel

end Template

/-! ## Rendering -/

namespace Templates

open Template

variable {templates templates' : Templates} {name text : String} {template : Template}

/-- A template that is written down can be registered by its text, which leaves all others as they
are. -/
theorem exists_register_of_written (templates : Templates) (name : String) (h : IsPlain template)
    (htext : written template = text.toList) :
    ∃ templates', templates.register name text = .ok templates' ∧
      (∃ found, templates'.byName.get? name = some found ∧ SameLayout found template) ∧
      ∀ other, other ≠ name → templates'.byName.get? other = templates.byName.get? other := by
  obtain ⟨found, hread, hsame⟩ := read?_written h
  rw [htext] at hread
  refine ⟨⟨templates.byName.insert name found⟩, ?_, ⟨found, Keyed.get?_insert_self _ _ _, hsame⟩,
    fun other hother => Keyed.get?_insert_of_ne _ _ hother.symm⟩
  rw [register, hread]

/-- Registers two templates, where there are none yet. -/
def ofTwo (name text name' text' : String) : Except Failure Templates :=
  (register ⟨.empty⟩ name text).bind fun templates => templates.register name' text'

/-- Two templates that are written down can be registered under different names. -/
theorem exists_ofTwo_of_written {name' text' : String} {template' : Template} (hne : name ≠ name')
    (h : IsPlain template) (htext : written template = text.toList)
    (h' : IsPlain template') (htext' : written template' = text'.toList) :
    ∃ templates, ofTwo name text name' text' = .ok templates ∧
      (∃ found, templates.byName.get? name = some found ∧ SameLayout found template) ∧
      ∃ found, templates.byName.get? name' = some found ∧ SameLayout found template' := by
  obtain ⟨templates, hregister, ⟨found, hfound, hsame⟩, -⟩ :=
    exists_register_of_written ⟨.empty⟩ name h htext
  obtain ⟨templates', hregister', hfound', hothers⟩ :=
    exists_register_of_written templates name' h' htext'
  refine ⟨templates', ?_, ⟨found, (hothers name hne).trans hfound, hsame⟩, hfound'⟩
  rw [ofTwo, hregister]
  exact hregister'

/-- What is rendered for files are their lines, each with its line break. -/
structure RendersFiles (templates : Templates) : Prop where
  factory : ∀ file : FactoryFile,
    templates.render factoryName file.toValue = .ok (String.ofList (layout file.lines))
  bindings : ∀ file : BindingFile,
    templates.render bindingsName file.toValue = .ok (String.ofList (layout file.lines))

/-- Templates that lay out like the built-in ones under their names render the lines of files. -/
theorem RendersFiles.of_sameLayout
    (hfactory : ∃ found, templates.byName.get? factoryName = some found ∧
      SameLayout found factoryFile)
    (hbindings : ∃ found, templates.byName.get? bindingsName = some found ∧
      SameLayout found bindingFile) : RendersFiles templates := by
  obtain ⟨factory, hfactory, hsame⟩ := hfactory
  obtain ⟨bindings, hbindings, hsame'⟩ := hbindings
  exact ⟨fun file => render_of_get? hfactory ((hsame _).trans file.lay_factoryFile),
    fun file => render_of_get? hbindings ((hsame' _).trans file.lay_bindingFile)⟩

/-- Both texts can be registered, and what is then rendered for files are their lines, as with the
built-in templates: rendering never fails, and every text of a file is laid out as it is. -/
theorem renders_texts :
    RendersFiles builtin ∧ ∃ templates,
      ofTwo factoryName factoryText bindingsName bindingsText = .ok templates ∧
        RendersFiles templates := by
  constructor
  · exact .of_sameLayout ⟨_, get?_factoryName, .refl _⟩ ⟨_, get?_bindingsName, .refl _⟩
  · have hne : factoryName ≠ bindingsName := by decide
    obtain ⟨templates, hregister, hfactory, hbindings⟩ := exists_ofTwo_of_written hne
      isPlain_factoryFile written_factoryFile isPlain_bindingFile written_bindingFile
    exact ⟨templates, hregister, .of_sameLayout hfactory hbindings⟩

/-- A value that looks like a template is laid out as it is. -/
example : (builtin.render factoryName (FactoryFile.toValue
      { package := "", imports := ["\x7b\x7btarget\x7d\x7d & <b>"], target := "Card",
        factory := none, builder := none })).toOption =
    some "\x7b\x7btarget\x7d\x7d & <b>\n\n" := by
  decide +kernel

end Templates

end ComponentWiring

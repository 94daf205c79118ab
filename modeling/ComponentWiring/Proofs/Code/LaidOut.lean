import ComponentWiring.Code.BindingFile
import ComponentWiring.Code.FactoryFile
import ComponentWiring.Proofs.Keyed
import ComponentWiring.Proofs.Source.ImportLines

/-!
Generated files as they are laid out. The template of a file has a value for every name in it, so
that laying it out never fails, and what comes out are the lines that `FactoryFile.lines` and
`BindingFile.lines` list, each with its line break.

A line of these lists is a line of the template; where it carries a text of the user, such as the
default of a parameter, it may run over several lines of the file.
-/

namespace ComponentWiring

open Source (unlines unlines_nil unlines_cons unlines_append)

/-- Lines as one text. -/
def layout (lines : List String) : List Char :=
  unlines (lines.map String.toList)

@[simp] theorem layout_nil : layout [] = [] := rfl

@[simp] theorem layout_cons (line : String) (lines : List String) :
    layout (line :: lines) = line.toList ++ '\n' :: layout lines :=
  unlines_cons _ _

@[simp] theorem layout_append (lines lines' : List String) :
    layout (lines ++ lines') = layout lines ++ layout lines' := by
  rw [layout, List.map_append, unlines_append, layout, layout]

/-- The package line with a blank line behind it; nothing in the default package. -/
def packageLines (package : String) : List String :=
  if package.isEmpty then [] else ["package " ++ package, ""]

/-! ## The lines of a file -/

namespace FactoryPart

/-- The lines of a factory class that creates `target`. -/
def lines (factory : FactoryPart) (target : String) : List String :=
  factory.annotations ++
    (if factory.fields.isEmpty then ["class " ++ factory.name ++ " \x7b"]
      else ["class " ++ factory.name ++ "("] ++ factory.fields.map ("    " ++ ·) ++ [") \x7b"]) ++
    [""] ++
    (if factory.createParameters.isEmpty then ["    fun create(): " ++ target ++ " \x7b"]
      else ["    fun create("] ++ factory.createParameters.map ("        " ++ ·) ++
        ["    ): " ++ target ++ " \x7b"]) ++
    ["        return " ++ target ++ "(" ++ factory.arguments ++ ")", "    \x7d", "\x7d"]

end FactoryPart

namespace BuilderPart

/-- The lines of a builder function that returns `target`. -/
def lines (builder : BuilderPart) (target : String) : List String :=
  ["@VaadinDsl", "fun HasComponents." ++ builder.name ++ "("] ++
    builder.parameters.map ("    " ++ ·) ++ ["): " ++ target ++ " \x7b"] ++
    builder.body.map ("    " ++ ·) ++ ["\x7d"]

end BuilderPart

namespace FactoryFile

/-- The lines of the file of a class. -/
def lines (file : FactoryFile) : List String :=
  packageLines file.package ++ file.imports ++ [""] ++
    (match file.factory with
      | some factory => factory.lines file.target
      | none => []) ++
    (match file.builder with
      | some builder => (if file.factory.isSome then [""] else []) ++ builder.lines file.target
      | none => [])

/-- The file of a class, laid out. -/
def laidOut (file : FactoryFile) : Artifact :=
  ⟨file.package, file.fileName, String.ofList (layout file.lines)⟩

end FactoryFile

namespace BindingFunction

/-- The lines of a function that binds a property, with the blank line in front of it. -/
def lines (f : BindingFunction) : List String :=
  ["", "/**", " * Binds the given [signal] to the [" ++ f.property ++ "] property.", " *",
    " * @param signal the signal to bind", " */",
    "fun " ++ f.owner ++ "." ++ f.property ++ "(signal: " ++ f.signalType ++ ") \x7b",
    "    this." ++ f.property ++ ".bindTo(signal)", "\x7d"]

end BindingFunction

namespace BindingFile

/-- The lines of the file of bound properties. -/
def lines (file : BindingFile) : List String :=
  packageLines file.package ++ file.imports ++ file.functions.flatMap BindingFunction.lines

/-- The file of bound properties, laid out. -/
def laidOut (file : BindingFile) : Artifact :=
  ⟨file.package, file.owner ++ "SignalExtensions.kt", String.ofList (layout file.lines)⟩

end BindingFile

/-! ## Laying out templates -/

namespace Template

variable {value : Value} {part : TemplatePart} {rest : Template} {text text' : List Char}

theorem lay_cons (h : layPart value part = some text) (hrest : lay value rest = some text') :
    lay value (part :: rest) = some (text ++ text') := by
  simp [lay, h, hrest]

theorem lay_singleton (h : layPart value part = some text) : lay value [part] = some text := by
  simp [lay, h]

theorem layPart_words (content : String) : layPart value (words content) = some content.toList := by
  simp [words, layPart]

theorem layPart_name {path : List String} {s : String} (h : at? path value = some (.string s)) :
    layPart value (.name path) = some s.toList := by
  simp [layPart, h, valueText]

theorem layPart_choice_pos {path : List String} {yes no : Template}
    (h : holds (at? path value) = true) : layPart value (.choice path yes no) = lay value yes := by
  simp [layPart, h]

theorem layPart_choice_neg {path : List String} {yes no : Template}
    (h : holds (at? path value) = false) : layPart value (.choice path yes no) = lay value no := by
  simp [layPart, h]

/-- A block that is repeated over a list, where every item is laid out. -/
theorem layPart_each {α : Type} {path : List String} {body : Template} {items : List α}
    {toValue : α → Value} {toText : α → List Char}
    (h : at? path value = some (.array (items.map toValue)))
    (hbody : ∀ item, lay (toValue item) body = some (toText item)) :
    layPart value (.each path body) = some (items.flatMap toText) := by
  have hitems : (items.map toValue).mapM (fun item => lay item body) = some (items.map toText) := by
    rw [List.mapM_map]
    simp only [Function.comp_def, hbody]
    exact List.mapM_pure
  simp [layPart, h, itemsOf, hitems, List.flatMap_def]

theorem layPart_linesFor {margin : String} {path texts : List String}
    (h : at? path value = some (.ofTexts texts)) :
    layPart value (linesFor margin path) = some (layout (texts.map (margin ++ ·))) := by
  have hbody : ∀ t : String, lay (.string t) [words margin, .name [], words "\n"] =
      some ((margin ++ t).toList ++ ['\n']) := by
    intro t
    rw [lay_cons (layPart_words margin)
      (lay_cons (layPart_name (s := t) rfl) (lay_singleton (layPart_words "\n")))]
    simp
  rw [linesFor, layPart_each h hbody, layout, unlines, List.map_map, List.flatMap_map]
  rfl

@[simp] theorem holds_string (s : String) : holds (some (.string s)) = !s.isEmpty := rfl

@[simp] theorem holds_ofTexts (texts : List String) :
    holds (some (.ofTexts texts)) = !texts.isEmpty := by
  simp [Value.ofTexts, holds]

@[simp] theorem holds_object_cons (field : String × Value) (fields : List (String × Value)) :
    holds (some (.object (field :: fields))) = true := rfl

@[simp] theorem holds_null : holds (some .null) = false := rfl

theorem layPart_packageLine {package : String}
    (h : at? ["package"] value = some (.string package)) :
    layPart value packageLine = some (layout (packageLines package)) := by
  unfold packageLine packageLines
  cases hempty : package.isEmpty with
  | true =>
    rw [layPart_choice_neg (by rw [h, holds_string, hempty]; rfl)]
    rfl
  | false =>
    rw [layPart_choice_pos (by rw [h, holds_string, hempty]; rfl),
      lay_cons (layPart_words _) (lay_cons (layPart_name h) (lay_singleton (layPart_words _)))]
    simp

end Template

/-! ## The built-in templates -/

namespace Templates

open Template

/-- What a template that is known renders. -/
theorem render_of_get? {templates : Templates} {name : String} {template : Template}
    (h : templates.byName.get? name = some template) {context : Value} {cs : List Char}
    (hlay : lay context template = some cs) :
    templates.render name context = .ok (String.ofList cs) := by
  rw [render, h, Option.bind_some, render?, hlay]
  rfl

theorem get?_factoryName : builtin.byName.get? factoryName = some factoryFile := by
  rw [builtin, Keyed.get?_ofList]
  rfl

theorem get?_bindingsName : builtin.byName.get? bindingsName = some bindingFile := by
  rw [builtin, Keyed.get?_ofList]
  rfl

end Templates

/-! ## The file of a class -/

namespace FactoryFile

open Template

variable {file : FactoryFile} {factory : FactoryPart} {builder : BuilderPart}

theorem at?_package : at? ["package"] file.toValue = some (.string file.package) := rfl

theorem at?_imports : at? ["imports"] file.toValue = some (.ofTexts file.imports) := rfl

theorem at?_target : at? ["target"] file.toValue = some (.string file.target) := rfl

theorem at?_factory :
    at? ["factory"] file.toValue = some ((file.factory.map factoryValue).getD .null) := rfl

theorem at?_builder :
    at? ["builder"] file.toValue = some ((file.builder.map builderValue).getD .null) := rfl

/-- A name of the factory is looked up in the factory. -/
theorem at?_in_factory (h : file.factory = some factory) (path : List String) :
    at? ("factory" :: path) file.toValue = at? path (factoryValue factory) := by
  rw [toValue, h]
  rfl

/-- A name of the builder function is looked up in the builder function. -/
theorem at?_in_builder (h : file.builder = some builder) (path : List String) :
    at? ("builder" :: path) file.toValue = at? path (builderValue builder) := by
  rw [toValue, h]
  rfl

/-- The head of the factory class, with or without fields. -/
theorem lay_factoryHead (h : file.factory = some factory) :
    layPart file.toValue factoryHead = some (layout
      (if factory.fields.isEmpty then ["class " ++ factory.name ++ " \x7b"]
      else ["class " ++ factory.name ++ "("] ++ factory.fields.map ("    " ++ ·) ++
        [") \x7b"])) := by
  have hname : at? ["factory", "name"] file.toValue = some (.string factory.name) :=
    at?_in_factory h _
  have hfields : at? ["factory", "fields"] file.toValue = some (.ofTexts factory.fields) :=
    at?_in_factory h _
  unfold factoryHead
  cases hempty : factory.fields.isEmpty with
  | true =>
    rw [layPart_choice_neg (by rw [hfields, holds_ofTexts, hempty]; rfl),
      lay_cons (layPart_words _) (lay_cons (layPart_name hname) (lay_singleton (layPart_words _)))]
    simp
  | false =>
    rw [layPart_choice_pos (by rw [hfields, holds_ofTexts, hempty]; rfl),
      lay_cons (layPart_words _) (lay_cons (layPart_name hname) (lay_cons (layPart_words _)
        (lay_cons (layPart_linesFor hfields) (lay_singleton (layPart_words _)))))]
    simp

/-- The head of `create`, with or without parameters. -/
theorem lay_createHead (h : file.factory = some factory) :
    layPart file.toValue createHead = some (layout
      (if factory.createParameters.isEmpty then ["    fun create(): " ++ file.target ++ " \x7b"]
      else ["    fun create("] ++ factory.createParameters.map ("        " ++ ·) ++
        ["    ): " ++ file.target ++ " \x7b"])) := by
  have hcreate : at? ["factory", "create_params"] file.toValue =
      some (.ofTexts factory.createParameters) :=
    at?_in_factory h _
  unfold createHead
  cases hempty : factory.createParameters.isEmpty with
  | true =>
    rw [layPart_choice_neg (by rw [hcreate, holds_ofTexts, hempty]; rfl),
      lay_cons (layPart_words _)
        (lay_cons (layPart_name at?_target) (lay_singleton (layPart_words _)))]
    simp
  | false =>
    rw [layPart_choice_pos (by rw [hcreate, holds_ofTexts, hempty]; rfl),
      lay_cons (layPart_words _) (lay_cons (layPart_linesFor hcreate) (lay_cons (layPart_words _)
        (lay_cons (layPart_name at?_target) (lay_singleton (layPart_words _)))))]
    simp

theorem lay_factoryClass (h : file.factory = some factory) :
    lay file.toValue factoryClass = some (layout (factory.lines file.target)) := by
  have hannotations : at? ["factory", "annotations"] file.toValue =
      some (.ofTexts factory.annotations) :=
    at?_in_factory h _
  have harguments : at? ["factory", "arguments"] file.toValue =
      some (.string factory.arguments) :=
    at?_in_factory h _
  rw [factoryClass, lay_cons (layPart_linesFor hannotations) (lay_cons (lay_factoryHead h)
    (lay_cons (layPart_words _) (lay_cons (lay_createHead h) (lay_cons (layPart_words _)
      (lay_cons (layPart_name at?_target) (lay_cons (layPart_words _)
        (lay_cons (layPart_name harguments) (lay_singleton (layPart_words _)))))))))]
  simp [FactoryPart.lines]

theorem lay_builderFunction (h : file.builder = some builder) :
    lay file.toValue builderFunction =
      some (layout ((if file.factory.isSome then [""] else []) ++ builder.lines file.target)) := by
  have hname : at? ["builder", "name"] file.toValue = some (.string builder.name) :=
    at?_in_builder h _
  have hparameters : at? ["builder", "params"] file.toValue =
      some (.ofTexts builder.parameters) :=
    at?_in_builder h _
  have hbody : at? ["builder", "body"] file.toValue = some (.ofTexts builder.body) :=
    at?_in_builder h _
  have hblank : layPart file.toValue (.choice ["factory"] [words "\n"] []) =
      some (layout (if file.factory.isSome then [""] else [])) := by
    cases hfactory : file.factory with
    | some factory =>
      rw [layPart_choice_pos (by rw [at?_factory, hfactory]; rfl),
        lay_singleton (layPart_words _)]
      rfl
    | none =>
      rw [layPart_choice_neg (by rw [at?_factory, hfactory]; rfl)]
      simp [lay]
  rw [builderFunction, lay_cons hblank (lay_cons (layPart_words _) (lay_cons (layPart_name hname)
    (lay_cons (layPart_words _) (lay_cons (layPart_linesFor hparameters)
      (lay_cons (layPart_words _) (lay_cons (layPart_name at?_target) (lay_cons (layPart_words _)
        (lay_cons (layPart_linesFor hbody) (lay_singleton (layPart_words _))))))))))]
  simp [BuilderPart.lines]

theorem lay_factoryFile (file : FactoryFile) :
    lay file.toValue factoryFile = some (layout file.lines) := by
  have hfactory : layPart file.toValue (.choice ["factory"] factoryClass []) =
      some (layout (match file.factory with
        | some factory => factory.lines file.target
        | none => [])) := by
    cases h : file.factory with
    | some factory =>
      rw [layPart_choice_pos (by rw [at?_factory, h]; rfl), lay_factoryClass h]
    | none =>
      rw [layPart_choice_neg (by rw [at?_factory, h]; rfl)]
      simp [lay]
  have hbuilder : layPart file.toValue (.choice ["builder"] builderFunction []) =
      some (layout (match file.builder with
        | some builder => (if file.factory.isSome then [""] else []) ++ builder.lines file.target
        | none => [])) := by
    cases h : file.builder with
    | some builder =>
      rw [layPart_choice_pos (by rw [at?_builder, h]; rfl), lay_builderFunction h]
    | none =>
      rw [layPart_choice_neg (by rw [at?_builder, h]; rfl)]
      simp [lay]
  rw [factoryFile, lay_cons (layPart_packageLine at?_package)
    (lay_cons (layPart_linesFor at?_imports) (lay_cons (layPart_words _)
      (lay_cons hfactory (lay_singleton hbuilder))))]
  simp [lines]

/-- The file of a class is always laid out, and holds its lines. -/
theorem artifact_eq_ok (file : FactoryFile) : file.artifact = .ok file.laidOut := by
  rw [artifact, Templates.render_of_get? Templates.get?_factoryName file.lay_factoryFile]
  rfl

end FactoryFile

/-! ## The file of bound properties -/

namespace BindingFile

open Template

variable {file : BindingFile}

theorem lay_bindingFunction (f : BindingFunction) :
    lay (functionValue f) bindingFunction = some (layout f.lines) := by
  have howner : at? ["owner"] (functionValue f) = some (.string f.owner) := rfl
  have hproperty : at? ["property"] (functionValue f) = some (.string f.property) := rfl
  have hsignal : at? ["signal_type"] (functionValue f) = some (.string f.signalType) := rfl
  rw [bindingFunction, lay_cons (layPart_words _) (lay_cons (layPart_name hproperty)
    (lay_cons (layPart_words _) (lay_cons (layPart_name howner) (lay_cons (layPart_words _)
      (lay_cons (layPart_name hproperty) (lay_cons (layPart_words _)
        (lay_cons (layPart_name hsignal) (lay_cons (layPart_words _)
          (lay_cons (layPart_name hproperty) (lay_singleton (layPart_words _)))))))))))]
  simp [BindingFunction.lines]

theorem lay_bindingFile (file : BindingFile) :
    lay file.toValue bindingFile = some (layout file.lines) := by
  have hpackage : at? ["package"] file.toValue = some (.string file.package) := rfl
  have himports : at? ["imports"] file.toValue = some (.ofTexts file.imports) := rfl
  have hfunctions : at? ["functions"] file.toValue =
      some (.array (file.functions.map functionValue)) := rfl
  rw [bindingFile, lay_cons (layPart_packageLine hpackage) (lay_cons (layPart_linesFor himports)
    (lay_singleton (layPart_each hfunctions lay_bindingFunction)))]
  simp [lines, layout, unlines, List.flatMap_map, List.map_flatMap, List.flatMap_assoc]

/-- The file of bound properties is always laid out, and holds its lines. -/
theorem artifact_eq_ok (file : BindingFile) : file.artifact = .ok file.laidOut := by
  rw [artifact, Templates.render_of_get? Templates.get?_bindingsName file.lay_bindingFile]
  rfl

end BindingFile

end ComponentWiring

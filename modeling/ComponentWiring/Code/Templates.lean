import ComponentWiring.Code.Template
import ComponentWiring.Model.Failure

/-!
Templates by name. Two are there from the start, one for the file of a class and one for the file of
the bound properties of a class; a template that is registered under a name that is taken replaces
the one that was there.
-/

namespace ComponentWiring

namespace Template

/-- Text that stands for itself. -/
def words (content : String) : TemplatePart :=
  .text content.toList

/-- Lines for the items of a list, each behind the same margin. -/
def linesFor (margin : String) (path : List String) : TemplatePart :=
  .each path [words margin, .name [], words "\n"]

/-- The package line with a blank line behind it, unless the file is in the default package. -/
def packageLine : TemplatePart :=
  .choice ["package"] [words "package ", .name ["package"], words "\n\n"] []

/-! ## The file of a class -/

/-- The head of the factory class: with the injected parameters as fields, if there are any. -/
def factoryHead : TemplatePart :=
  .choice ["factory", "fields"]
    [words "class ", .name ["factory", "name"], words "(\n",
      linesFor "    " ["factory", "fields"], words ") \x7b\n"]
    [words "class ", .name ["factory", "name"], words " \x7b\n"]

/-- The head of the function that creates a component. -/
def createHead : TemplatePart :=
  .choice ["factory", "create_params"]
    [words "    fun create(\n", linesFor "        " ["factory", "create_params"],
      words "    ): ", .name ["target"], words " \x7b\n"]
    [words "    fun create(): ", .name ["target"], words " \x7b\n"]

/-- The factory class. -/
def factoryClass : Template :=
  [linesFor "" ["factory", "annotations"], factoryHead, words "\n", createHead,
    words "        return ", .name ["target"], words "(", .name ["factory", "arguments"],
    words ")\n    \x7d\n\x7d\n"]

/-- The builder function, with a blank line in front of it if a factory comes first. -/
def builderFunction : Template :=
  [.choice ["factory"] [words "\n"] [],
    words "@VaadinDsl\nfun HasComponents.", .name ["builder", "name"], words "(\n",
    linesFor "    " ["builder", "params"], words "): ", .name ["target"], words " \x7b\n",
    linesFor "    " ["builder", "body"], words "\x7d\n"]

/-- The file of a class. -/
def factoryFile : Template :=
  [packageLine, linesFor "" ["imports"], words "\n",
    .choice ["factory"] factoryClass [], .choice ["builder"] builderFunction []]

/-! ## The file of bound properties -/

/-- The function that binds a property. -/
def bindingFunction : Template :=
  [words "\n/**\n * Binds the given [signal] to the [", .name ["property"],
    words "] property.\n *\n * @param signal the signal to bind\n */\nfun ", .name ["owner"],
    words ".", .name ["property"], words "(signal: ", .name ["signal_type"],
    words ") \x7b\n    this.", .name ["property"], words ".bindTo(signal)\n\x7d\n"]

/-- The file of the bound properties of a class. -/
def bindingFile : Template :=
  [packageLine, linesFor "" ["imports"], .each ["functions"] bindingFunction]

end Template

/-- Templates by name. -/
structure Templates where
  byName : Keyed Template
  deriving Inhabited

namespace Templates

/-- The name of the template for the file of a class. -/
def factoryName : String := "kotlin/factory"

/-- The name of the template for the file of bound properties. -/
def bindingsName : String := "kotlin/bindings"

/-- The templates that are there from the start. -/
def builtin : Templates :=
  ⟨Keyed.ofList [(factoryName, Template.factoryFile), (bindingsName, Template.bindingFile)]⟩

/-- Reads a template and keeps it under a name. -/
def register (templates : Templates) (name text : String) : Except Failure Templates :=
  match Template.read? text.toList with
  | some template => .ok ⟨templates.byName.insert name template⟩
  | none => .error .template

/-- The text of a template for a context. -/
def render (templates : Templates) (name : String) (context : Value) : Except Failure String :=
  match (templates.byName.get? name).bind fun template => template.render? context with
  | some text => .ok text
  | none => .error .template

end Templates

end ComponentWiring

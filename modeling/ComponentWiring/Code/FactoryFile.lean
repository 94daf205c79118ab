import ComponentWiring.Code.Artifact
import ComponentWiring.Code.Templates
import ComponentWiring.Text.Numeric

/-!
The file of a marked class. It holds a factory, which takes the injected parameters when it is made
and the exposed ones when it creates a component, and, for a component, a builder function that adds
the created component to a container of components.

`FactoryFile.plan` decides what the file holds, or why there is none; the template lays it out.
-/

namespace ComponentWiring

open Text

/-- The factory class. -/
structure FactoryPart where
  name : String
  annotations : List String
  /-- The fields for the injected parameters, with their commas. -/
  fields : List String
  /-- The parameters of `create`, with their commas. -/
  createParameters : List String
  /-- The arguments of the constructor, as one text. -/
  arguments : String
  deriving DecidableEq, Repr, Inhabited

/-- The builder function. -/
structure BuilderPart where
  name : String
  /-- The parameters, with their commas. -/
  parameters : List String
  /-- The statements. -/
  body : List String
  deriving DecidableEq, Repr, Inhabited

/-- What the file of a class holds. -/
structure FactoryFile where
  package : String
  /-- The import lines. -/
  imports : List String
  /-- The name of the class. -/
  target : String
  factory : Option FactoryPart
  builder : Option BuilderPart
  deriving DecidableEq, Repr, Inhabited

namespace FactoryFile

/-- The marker of builder functions. -/
def builderMarker : String := "com.github.fenrur.vaadin.codegen.VaadinDsl"

/-- What a builder function adds the component to. -/
def builderReceiver : String := "com.vaadin.flow.component.HasComponents"

/-! ## Names -/

/-- Whether a name can stand in code: letters, digits and underscores, and no digit first. -/
def isIdentifier (name : String) : Bool :=
  match name.toList with
  | [] => false
  | first :: rest =>
    (isAlphabetic first || first == '_') && rest.all fun c => isAlphanumeric c || c == '_'

/-- What is wrong with the names of parameters, where `seen` came before. -/
def parameterRefusal? : (seen : List String) → List Parameter → Option Refusal
  | _, [] => none
  | seen, p :: rest =>
    if !isIdentifier p.name then some (.invalidParameterName p.name)
    else if seen.contains p.name then some (.repeatedParameter p.name)
    else parameterRefusal? (p.name :: seen) rest

/-- The names that a builder function uses itself. -/
def reservedNames (mode : Mode) (viaFactory : Bool) : List String :=
  ["block", "component"] ++ (if viaFactory then ["factory", mode.handle.name] else [])

/-- What is wrong with the names of a class for which a builder function is generated. -/
def builderRefusal? (d : Declaration) (mode : Mode) (viaFactory : Bool) : Option Refusal :=
  (d.exposed.find? fun p => (reservedNames mode viaFactory).contains p.name).map fun p =>
    .reservedParameter p.name d.builderName

/-! ## Parts -/

/-- Puts a comma behind every line but the last. -/
def withCommas : List String → List String
  | [] => []
  | [line] => [line]
  | line :: rest => (line ++ ",") :: withCommas rest

/-- The names of parameters as arguments. -/
def argumentText (parameters : List Parameter) : String :=
  ", ".intercalate (parameters.map (·.name))

/-- The factory class. -/
def factoryPart (d : Declaration) (mode : Mode) : FactoryPart :=
  { name := d.factoryName
    annotations := mode.factoryAnnotations
    fields := withCommas (d.injected.map fun p => "private val " ++ p.signature)
    createParameters := withCommas (d.exposed.map Parameter.line)
    arguments := argumentText d.parameters }

/-- How a builder function comes by the component. -/
def creation (d : Declaration) (mode : Mode) (viaFactory : Bool) : List String :=
  if viaFactory then
    ["val factory = " ++ mode.fetch d.factoryName,
      "val component = factory.create(" ++ argumentText d.exposed ++ ")"]
  else ["val component = " ++ d.name ++ "(" ++ argumentText d.parameters ++ ")"]

/-- The builder function. -/
def builderPart (d : Declaration) (mode : Mode) (viaFactory : Bool) : BuilderPart :=
  { name := d.builderName
    parameters :=
      (if viaFactory then [mode.handle.declaration ++ ","] else []) ++
        d.exposed.map (fun p => p.line ++ ",") ++
        ["block: " ++ d.name ++ ".() -> Unit = \x7b\x7d"]
    body :=
      creation d mode viaFactory ++ ["add(component)", "component.block()", "return component"] }

/-- The names that the file of a class refers to, in order. -/
def importNames (d : Declaration) (exportable viaFactory : Bool) (mode : Mode) : List String :=
  sortedNames <|
    d.parameters.flatMap (fun p => p.type.importNames) ++ ImportBlock.starNames d.starImports ++
      (if viaFactory then mode.factoryImports else []) ++
      (if exportable then
        [builderMarker, builderReceiver] ++ (if viaFactory then [mode.handle.importName] else [])
      else [])

/-! ## The file -/

/-- Whether a factory is generated for a class. -/
def hasFactory (d : Declaration) (policy : Policy) : Bool :=
  !d.injected.isEmpty || policy == .alwaysFactory

/-- What the file of a class holds; nothing for a class that needs neither factory nor builder. -/
def plan (d : Declaration) (exportable : Bool) (mode : Mode) (policy : Policy) :
    Except Refusal (Option FactoryFile) :=
  let viaFactory := hasFactory d policy
  if !isIdentifier d.name then .error (.invalidName d.name)
  else
    match parameterRefusal? [] d.parameters with
    | some refusal => .error refusal
    | none =>
      if !viaFactory && !exportable then .ok none
      else
        match if exportable then builderRefusal? d mode viaFactory else none with
        | some refusal => .error refusal
        | none =>
          .ok (some {
            package := d.package
            imports := ImportBlock.lines (importNames d exportable viaFactory mode) d.package
            target := d.name
            factory := if viaFactory then some (factoryPart d mode) else none
            builder := if exportable then some (builderPart d mode viaFactory) else none })

/-- The name of the file. -/
def fileName (file : FactoryFile) : String :=
  match file.factory with
  | some factory => factory.name ++ ".kt"
  | none => file.target ++ "Dsl.kt"

/-- The factory as the template sees it. -/
def factoryValue (factory : FactoryPart) : Value :=
  .object [
    ("name", .string factory.name),
    ("annotations", .ofTexts factory.annotations),
    ("fields", .ofTexts factory.fields),
    ("create_params", .ofTexts factory.createParameters),
    ("arguments", .string factory.arguments)]

/-- The builder function as the template sees it. -/
def builderValue (builder : BuilderPart) : Value :=
  .object [
    ("name", .string builder.name),
    ("params", .ofTexts builder.parameters),
    ("body", .ofTexts builder.body)]

/-- The file as the template sees it. -/
def toValue (file : FactoryFile) : Value :=
  .object [
    ("package", .string file.package),
    ("imports", .ofTexts file.imports),
    ("target", .string file.target),
    ("factory", (file.factory.map factoryValue).getD .null),
    ("builder", (file.builder.map builderValue).getD .null)]

/-- The file laid out. -/
def artifact (file : FactoryFile) : Except Failure Artifact :=
  (Templates.builtin.render Templates.factoryName file.toValue).map fun content =>
    ⟨file.package, file.fileName, content⟩

end FactoryFile

/-- The file of a class laid out; nothing for a class that needs none. -/
def Declaration.artifact? (d : Declaration) (exportable : Bool) (mode : Mode) (policy : Policy) :
    Except Failure (Option Artifact) :=
  match FactoryFile.plan d exportable mode policy with
  | .error refusal => .error (.refused d.qualifiedName refusal)
  | .ok none => .ok none
  | .ok (some file) => file.artifact.map some

end ComponentWiring

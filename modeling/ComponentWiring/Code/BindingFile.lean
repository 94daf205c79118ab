import ComponentWiring.Code.Artifact
import ComponentWiring.Code.Templates

/-!
The files of bound properties: one for every class with properties that can be bound, with a
function for each of them. A property that cannot be bound is reported and left out.
-/

namespace ComponentWiring

/-- Why a marked property cannot be bound. -/
inductive PropertyFault
  /-- It is not public. -/
  | restricted (visibility : Visibility)
  /-- Its type is no wrapper. -/
  | noWrapper (declared : String)
  /-- Its type has no argument. -/
  | noArgument
  /-- Its type has several arguments. -/
  | severalArguments (count : Nat)
  deriving DecidableEq, Repr, Inhabited

namespace PropertyFault

/-- The rule that the property breaks. -/
def rule : PropertyFault → Rule
  | restricted _ => .visibility
  | _ => .typeShape

/-- What is wrong, in words that follow the name of the property. -/
def message : PropertyFault → String
  | restricted visibility =>
    "must be public, but is " ++ visibility.keyword ++
      ". Generated extension functions cannot access " ++ visibility.keyword ++ " members."
  | noWrapper declared =>
    "must be of type BindableMutableSignal<T> or BindableSignal<T>, but is '" ++ declared ++ "'."
  | noArgument =>
    "must have a type parameter, e.g., BindableMutableSignal<String> or BindableSignal<String>."
  | severalArguments count =>
    "must have exactly one type parameter, but has " ++ toString count ++ "."

/-- The diagnostic about a property. -/
def diagnostic (fault : PropertyFault) (p : Property) : Diagnostic :=
  { severity := .error
    rule := fault.rule
    subject := p.subject
    message := "@ExposeSignal property '" ++ p.name ++ "' in class '" ++ p.owner ++ "' " ++
      fault.message
    location := some p.location }

end PropertyFault

namespace Property

/-- The declared type in words. -/
def declaredType (p : Property) : String :=
  if p.type.name.isEmpty then "<no explicit type>" else p.type.render

/-- The wrapper of a property that can be bound, and the type in it. -/
def bindable (p : Property) : Except PropertyFault (SignalKind × TypeExpr) :=
  if p.visibility ≠ .everywhere then .error (.restricted p.visibility)
  else
    match p.signalKind? with
    | none => .error (.noWrapper p.declaredType)
    | some kind =>
      match p.type.arguments with
      | [element] => .ok (kind, element)
      | [] => .error .noArgument
      | several => .error (.severalArguments several.length)

end Property

/-- A function that binds a property. -/
structure BindingFunction where
  owner : String
  property : String
  signalType : String
  deriving DecidableEq, Repr, Inhabited

/-- What the file of bound properties holds. -/
structure BindingFile where
  package : String
  owner : String
  /-- The import lines. -/
  imports : List String
  functions : List BindingFunction
  deriving DecidableEq, Repr, Inhabited

/-- Generated files and what was reported on the way. -/
structure Generated where
  artifacts : List Artifact := []
  diagnostics : Diagnostics := []
  deriving Repr, Inhabited

namespace BindingFile

/-- The properties that can be bound, each with its wrapper and the type in it. -/
def accepted (properties : List Property) : List (Property × SignalKind × TypeExpr) :=
  properties.filterMap fun p => p.bindable.toOption.map fun found => (p, found)

/-- The reports about the properties that cannot be bound. -/
def rejections (properties : List Property) : Diagnostics :=
  properties.filterMap fun p =>
    match p.bindable with
    | .error fault => some (fault.diagnostic p)
    | .ok _ => none

/-- The function that binds a property of `owner`. -/
def function (owner : String) (p : Property) (kind : SignalKind) (element : TypeExpr) :
    BindingFunction :=
  { owner
    property := p.name
    signalType := TypeExpr.lastPart kind.counterpartName ++ "<" ++ element.render ++ ">" }

/-- The names that the function for a property refers to. -/
def importNames (p : Property) (kind : SignalKind) (element : TypeExpr) : List String :=
  kind.counterpartName :: element.importNames ++ ImportBlock.starNames p.starImports

/-- What the file of the properties of a class holds; nothing if none of them can be bound. The
file belongs to the package of the first property. -/
def plan? (owner : String) (properties : List Property) : Option BindingFile :=
  let good := accepted properties
  if good.isEmpty then none
  else
    let package := (properties.head?.map (·.package)).getD ""
    let names := sortedNames (good.flatMap fun (p, kind, element) => importNames p kind element)
    some {
      package, owner
      imports := ImportBlock.lines names package
      functions := good.map fun (p, kind, element) => function owner p kind element }

/-- A function as the template sees it. -/
def functionValue (f : BindingFunction) : Value :=
  .object [
    ("owner", .string f.owner),
    ("property", .string f.property),
    ("signal_type", .string f.signalType)]

/-- The file as the template sees it. -/
def toValue (file : BindingFile) : Value :=
  .object [
    ("package", .string file.package),
    ("imports", .ofTexts file.imports),
    ("functions", .array (file.functions.map functionValue))]

/-- The file laid out. -/
def artifact (file : BindingFile) : Except Failure Artifact :=
  (Templates.builtin.render Templates.bindingsName file.toValue).map fun content =>
    ⟨file.package, file.owner ++ "SignalExtensions.kt", content⟩

/-- The file of the properties of one class and the reports about them. -/
def generate (owner : String) (properties : List Property) : Except Failure Generated := do
  let artifacts ← (plan? owner properties).toList.mapM artifact
  return { artifacts, diagnostics := rejections properties }

/-- Whether one class comes before another: by package and then by name. -/
def precedes (a b : String × String) : Bool :=
  ((compare a.1 b.1).then (compare a.2 b.2)).isLE

/-- The classes of properties, by package and name, in order. -/
def owners (properties : List Property) : List (String × String) :=
  ((properties.map fun p => (p.package, p.owner)).eraseDups).mergeSort precedes

/-- The files of all classes, in the order of the classes, and the reports in the same order. -/
def generateAll (properties : List Property) : Except Failure Generated := do
  let parts ← (owners properties).mapM fun (package, owner) =>
    generate owner (properties.filter fun p => p.package == package && p.owner == owner)
  return {
    artifacts := parts.flatMap (·.artifacts)
    diagnostics := parts.flatMap (·.diagnostics) }

end BindingFile

end ComponentWiring

import ComponentWiring.Model.Refusal
import ComponentWiring.Model.ClassHierarchy
import ComponentWiring.Source.Member
import ComponentWiring.Source.ParameterText

/-!
What one source file declares. `FileFindings.read` goes through the class heads of a file in order.
Every class adds its supertypes to the hierarchy and its marked properties to the properties, also
where the class itself is not marked; a marked class becomes a declaration, or a diagnostic that
says why it cannot be one.
-/

namespace ComponentWiring.Source

open Text

/-- The marker of a class for which code is generated. -/
def classMarker : String := "GenDsl"

/-- The marker of a property that is bound. -/
def propertyMarker : String := "ExposeSignal"

/-- What a file shares with everything that is declared in it. -/
structure FileContext where
  path : String
  /-- The text with its comments blanked out. -/
  masked : List Char
  imports : Imports
  /-- What unmarked parameters are in a class without any marked one. -/
  fallback : Convention

namespace FileContext

/-- The place of a byte offset. -/
def locate (file : FileContext) (offset : Nat) : Location :=
  ⟨file.path, lineAt file.masked offset⟩

/-! ## Properties -/

/-- A property with its written type. -/
def property (file : FileContext) (owner name : String) (type : List Char)
    (modifiers : List String) (offset : Nat) : Property :=
  { owner, name
    package := file.imports.package
    type := readType file.imports [] type
    visibility := Visibility.ofModifiers modifiers
    starImports := file.imports.stars
    location := file.locate offset }

/-- The marked properties that a primary constructor declares. -/
def constructorProperties (file : FileContext) (owner : String) (inside : Stretch) :
    List Property :=
  (parametersWithOffsets inside.text).filterMap fun (part, offset) =>
    match parameterText? part with
    | some p =>
      if p.isProperty && carriesMarker p.annotations propertyMarker then
        some (file.property owner p.name p.typeText p.modifiers (inside.start + offset))
      else none
    | none => none

/-- The marked properties that a class body declares directly. A property stands on the line on
which its type ends, since neither holds a line break. -/
def bodyProperties (file : FileContext) (owner : String) (body : Stretch) : List Property :=
  (properties (ownMembers body.text)).filterMap fun found =>
    let p := found.value
    if carriesMarker p.annotations propertyMarker then
      let type := beforeText " by ".toList (p.type.getD [])
      some (file.property owner p.name type p.modifiers (body.start + found.stop))
    else none

/-! ## Classes -/

/-- The refusal of a class for one of its parameters. -/
def refusalOf : ParameterFault → Refusal
  | .unreadable text => .unreadableParameter text
  | .variadic name => .variadicParameter name

/-- Whether a constructor of this visibility can be called from generated code. -/
def isCallable : Visibility → Bool
  | .everywhere | .inModule => true
  | .inSubclasses | .inClass => false

/-- The constructor parameters of a marked class, or why the class is refused. Of several reasons
the first counts, in the order of the tests here. -/
def constructorParameters (file : FileContext) (head : ClassHead) (header : Header) :
    Except Refusal (List Parameter) :=
  if head.kind ≠ .plainClass then .error (.notAClass head.kind)
  else if head.has "abstract" || head.has "sealed" then .error .abstractOrSealed
  else if !header.typeParameters.isEmpty then .error .generic
  else
    match header.shape with
    | .unbalanced => .error .unbalanced
    | .implicit =>
      if header.body.any (fun body => occurs secondaryConstructor? body.text) then
        .error .onlySecondary
      else .ok []
    | .primary inside visibility =>
      if isCallable visibility then
        (readParameters inside.text file.imports file.fallback).mapError refusalOf
      else .error (.restrictedConstructor visibility)

end FileContext

/-- What one class of a file contributes. -/
structure ClassFindings where
  qualifiedName : String
  supertypes : List TypeExpr
  properties : List Property
  /-- Nothing for a class without marker. -/
  outcome : Option (Except Diagnostic Declaration)

/-- What the class at a head contributes. -/
def FileContext.findings (file : FileContext) (found : Occurrence ClassHead) : ClassFindings :=
  let head := found.value
  let header := Header.read found.stop found.rest
  let location := file.locate found.stop
  let package := file.imports.package
  let supertypes := header.supertypes.map (readType file.imports header.typeParameters)
  let fromConstructor :=
    match header.shape with
    | .primary inside _ => file.constructorProperties head.name inside
    | _ => []
  let fromBody :=
    match header.body with
    | some body => file.bodyProperties head.name body
    | none => []
  let outcome :=
    if carriesMarker head.annotations classMarker then
      match file.constructorParameters head header with
      | .ok parameters =>
        some (.ok { name := head.name, package, parameters, supertypes,
                    starImports := file.imports.stars, location })
      | .error refusal => some (.error (refusal.diagnostic (qualify package head.name) location))
    else none
  { qualifiedName := qualify package head.name
    supertypes
    properties := fromConstructor ++ fromBody
    outcome }

/-- What one source file declares. -/
structure FileFindings where
  path : String
  package : String := ""
  declarations : List Declaration := []
  properties : List Property := []
  hierarchy : ClassHierarchy := {}
  diagnostics : Diagnostics := []

namespace FileFindings

/-- Puts together what the classes of a file contribute. Of two classes of one name the hierarchy
knows the later one. -/
def ofFindings (file : FileContext) (classes : List ClassFindings) : FileFindings :=
  { path := file.path
    package := file.imports.package
    declarations := classes.filterMap fun c => c.outcome.bind Except.toOption
    properties := classes.flatMap (·.properties)
    hierarchy := classes.foldl
      (fun hierarchy c => hierarchy.insert c.qualifiedName c.supertypes file.imports.stars) {}
    diagnostics := classes.filterMap fun c =>
      match c.outcome with
      | some (.error diagnostic) => some diagnostic
      | _ => none }

/-- Reads a source file. Companion objects are not classes of their own. -/
def read (path : String) (text : List Char) (fallback : Convention) : FileFindings :=
  let masked := blankComments text
  let file : FileContext := ⟨path, masked, Imports.ofText masked, fallback⟩
  ofFindings file
    (((classHeads masked).filter fun found => !found.value.has "companion").map file.findings)

end FileFindings

end ComponentWiring.Source

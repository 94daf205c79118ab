import ComponentWiring.Command.Outcome
import ComponentWiring.Pass.Generation
import ComponentWiring.Settings.Names

/-!
The command that lists what would be generated: the marked classes with their parameters, and the
bound properties.
-/

namespace ComponentWiring

/-- What is said about a marked class. -/
structure DeclarationSummary where
  name : String
  location : String
  exportable : Bool
  injected : List String
  exposed : List String
  deriving DecidableEq, Repr, Inhabited

/-- What is said about a bound property. -/
structure PropertySummary where
  name : String
  type : String
  visibility : String
  deriving DecidableEq, Repr, Inhabited

/-- Everything that a scan found. -/
structure SourceOverview where
  /-- The number of source files. -/
  files : Nat
  declarations : List DeclarationSummary
  properties : List PropertySummary
  deriving DecidableEq, Repr, Inhabited

namespace SourceOverview

/-- What is said about a declaration with its default expressions. -/
def describe (hierarchy : ClassHierarchy) (d : Declaration) : DeclarationSummary :=
  { name := d.qualifiedName
    location := d.location.render
    exportable := hierarchy.isComponent d
    injected := d.injected.map Parameter.line
    exposed := d.exposed.map Parameter.line }

/-- What is said about a property. -/
def describeProperty (p : Property) : PropertySummary :=
  { name := p.subject, type := p.type.render, visibility := p.visibility.keyword }

/-- The convention of a name, the default one without a name. -/
def conventionOf : Option String → Except StepFailure Convention
  | none => .ok default
  | some name => during .readConvention (Convention.parse name)

/-- Scans the source files under some roots. -/
def scan (disk : Disk) (roots : List String) (convention : Option String) :
    Except StepFailure (SourceOverview × Diagnostics) := do
  let pass : Pass := { convention := ← conventionOf convention }
  let (sources, problems) := Discovery.collect disk roots
  let units := pass.units sources
  let hierarchy := Pass.hierarchyOf (units.map (·.1))
  let report : SourceOverview := {
    files := sources.length
    declarations := units.flatMap fun (unit, text) =>
      unit.declarations.map fun d => describe hierarchy (Pending.withDefaults ⟨d, some text⟩)
    properties := units.flatMap fun (unit, _) => unit.properties.map describeProperty }
  return (report, problems ++ units.flatMap (·.1.diagnostics))

/-- What is said about a declaration, as a value. -/
def declarationValue (d : DeclarationSummary) : Value :=
  .object [
    ("name", .string d.name),
    ("location", .string d.location),
    ("exportable", .bool d.exportable),
    ("injected", .ofTexts d.injected),
    ("exposed", .ofTexts d.exposed)]

/-- What is said about a property, as a value. -/
def propertyValue (p : PropertySummary) : Value :=
  .object [
    ("name", .string p.name),
    ("type", .string p.type),
    ("visibility", .string p.visibility)]

/-- The report as a value. -/
def toValue (report : SourceOverview) : Value :=
  .object [
    ("files", .integer report.files),
    ("declarations", .array (report.declarations.map declarationValue)),
    ("properties", .array (report.properties.map propertyValue))]

/-- Runs the command. -/
def run (disk : Disk) (roots : List String) (convention : Option String) (format : OutputFormat)
    (color : Bool) : Outcome :=
  if roots.isEmpty then .nothingGiven disk "no source roots given (use --source)"
  else
    match scan disk roots convention with
    | .error failure => .failed disk failure
    | .ok (report, diagnostics) => .reported disk format color report.toValue diagnostics

end SourceOverview

end ComponentWiring

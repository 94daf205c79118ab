import ComponentWiring.Code.BindingFile
import ComponentWiring.Code.FactoryFile
import ComponentWiring.Disk.Discovery
import ComponentWiring.Manifest.Manifest
import ComponentWiring.Source.FileFindings

/-!
A generation pass: from source files or from a manifest to generated files. Classes come first, in
the order in which they were declared, then the bound properties. What is wrong with one class or
property is reported and does not keep the others from being generated.
-/

namespace ComponentWiring

open Source

/-- What a pass is told. -/
structure Pass where
  mode : Mode := default
  policy : Policy := default
  convention : Convention := default
  deriving DecidableEq, Repr, Inhabited

/-- A declaration, and the source text from which its default expressions are read. -/
structure Pending where
  declaration : Declaration
  source : Option String := none
  deriving Repr, Inhabited

namespace Generated

/-- One result after another. -/
def append (a b : Generated) : Generated :=
  ⟨a.artifacts ++ b.artifacts, a.diagnostics ++ b.diagnostics⟩

/-- A result that is only a report. -/
def report (diagnostic : Diagnostic) : Generated :=
  ⟨[], [diagnostic]⟩

end Generated

/-- The declaration with the default expressions of its source text, where that is known. -/
def Pending.withDefaults (p : Pending) : Declaration :=
  match p.source with
  | some text => p.declaration.withDefaults (defaultExpressions p.declaration.name text.toList)
  | none => p.declaration

namespace Pass

/-! ## Classes -/

/-- What is generated for one declaration. -/
def generateOne (pass : Pass) (hierarchy : ClassHierarchy) (p : Pending) :
    Except Failure Generated :=
  let d := p.withDefaults
  match FactoryFile.plan d (hierarchy.isComponent p.declaration) pass.mode pass.policy with
  | .error refusal => .ok (.report (refusal.diagnostic d.qualifiedName d.location))
  | .ok none => .ok {}
  | .ok (some file) => file.artifact.map fun artifact => ⟨[artifact], []⟩

/-- What is generated for declarations, where `seen` came before. Of several declarations of one
class only the first counts. -/
def generateClasses (pass : Pass) (hierarchy : ClassHierarchy) :
    (seen : List String) → List Pending → Except Failure Generated
  | _, [] => .ok {}
  | seen, p :: rest => do
    let name := p.declaration.qualifiedName
    let here ←
      if seen.contains name then
        .ok (.report (Refusal.repeatedDeclaration.diagnostic name p.declaration.location))
      else pass.generateOne hierarchy p
    let others ← pass.generateClasses hierarchy (name :: seen) rest
    return here.append others

/-- What is generated for declarations and properties, behind earlier diagnostics. -/
def generate (pass : Pass) (pending : List Pending) (properties : List Property)
    (hierarchy : ClassHierarchy) (diagnostics : Diagnostics) : Except Failure Generated := do
  let classes ← pass.generateClasses hierarchy [] pending
  let bindings ← BindingFile.generateAll properties
  return (Generated.append ⟨[], diagnostics⟩ classes).append bindings

/-! ## Source files -/

/-- Reads the source files. -/
def units (pass : Pass) (sources : List SourceText) : List (FileFindings × String) :=
  sources.map fun source =>
    (FileFindings.read source.path source.text.toList pass.convention, source.text)

/-- The classes of all units; of two classes of one name the later one counts. -/
def hierarchyOf (units : List FileFindings) : ClassHierarchy :=
  units.foldl (fun hierarchy unit => hierarchy.merge unit.hierarchy) ClassHierarchy.empty

/-- Generates from source files. -/
def runSources (pass : Pass) (sources : List SourceText) : Except Failure Generated :=
  let units := pass.units sources
  let pending := units.flatMap fun (unit, text) =>
    unit.declarations.map fun declaration => ⟨declaration, some text⟩
  pass.generate pending (units.flatMap (·.1.properties)) (hierarchyOf (units.map (·.1)))
    (units.flatMap (·.1.diagnostics))

/-! ## Manifests -/

/-- The warning about a source file that cannot be read. -/
def unreadableSource (d : Declaration) (path : String) (fault : IoFault) : Diagnostic :=
  { severity := .warning
    rule := .io
    subject := d.qualifiedName
    message := "cannot read " ++ path ++ ": " ++ fault.message ++ "; keeping manifest defaults"
    location := some d.location }

/-- A declaration of a manifest with the text of the file it names, or with a warning. -/
def pendingOf (disk : Disk) (base : String) (d : Declaration) : Pending × Diagnostics :=
  match Manifest.sourcePath? base d with
  | none => (⟨d, none⟩, [])
  | some path =>
    match disk.read path with
    | .ok text => (⟨d, some text⟩, [])
    | .error fault => (⟨d, none⟩, [unreadableSource d path fault])

/-- Generates from a manifest. Source files are seen from `base`; where one cannot be read, the
default expressions of the manifest stay. -/
def runManifest (pass : Pass) (disk : Disk) (manifest : Manifest) (base : String) :
    Except Failure Generated :=
  let read := manifest.declarations.map (pendingOf disk base)
  pass.generate (read.map (·.1)) manifest.properties manifest.hierarchy (read.flatMap (·.2))

end Pass

end ComponentWiring

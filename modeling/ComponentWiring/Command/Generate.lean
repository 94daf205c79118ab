import ComponentWiring.Command.Outcome
import ComponentWiring.Disk.Writing
import ComponentWiring.Manifest.Reader
import ComponentWiring.Pass.Generation
import ComponentWiring.Settings.Configuration
import ComponentWiring.Settings.Names

/-!
The command that generates. Settings come from a settings file and from options, and an option wins.
Declarations come from a manifest if there is one, else from the source files. Whatever could be
generated is written, also where something else was left out.
-/

namespace ComponentWiring

/-- The options of the command. -/
structure GenerateOptions where
  sources : List String := []
  manifest : Option String := none
  output : Option String := none
  mode : Option String := none
  policy : Option String := none
  configuration : Option String := none
  clean : Bool := false
  deriving DecidableEq, Repr, Inhabited

namespace GenerateOptions

/-- The settings of the settings file, with the paths in it seen from where it stands; the defaults
if there is no file. -/
def baseConfiguration (options : GenerateOptions) (disk : Disk) :
    Except StepFailure Configuration :=
  match options.configuration with
  | none => .ok {}
  | some path =>
    (during (.loadConfiguration path) (Configuration.load disk path)).map fun c =>
      c.rebase (PathText.directoryOf path)

/-- The policy that the options give. -/
def givenPolicy (options : GenerateOptions) (c : Configuration) : Except StepFailure Policy :=
  match options.policy with
  | none => .ok c.policy
  | some name => during .readPolicy (Policy.parse name)

/-- The settings that the options and the settings file give together. -/
def resolve (options : GenerateOptions) (disk : Disk) : Except StepFailure Configuration := do
  let c ← options.baseConfiguration disk
  let policy ← options.givenPolicy c
  return {
    c with
    sources := if options.sources.isEmpty then c.sources else options.sources
    manifest := options.manifest <|> c.manifest
    outputDirectory := options.output.getD c.outputDirectory
    mode := options.mode <|> c.mode
    policy
    clean := c.clean || options.clean }

end GenerateOptions

namespace Configuration

/-- The pass that the settings describe, with the warnings about them. -/
def toPass (c : Configuration) : Pass × Diagnostics :=
  let (mode, warnings) := Mode.resolve c.mode
  (⟨mode, c.policy, c.convention⟩, warnings)

/-- What the settings generate, behind the diagnostics about the settings and about the files that
were searched. -/
def generate (c : Configuration) (disk : Disk) : Except StepFailure Generated :=
  let (pass, warnings) := c.toPass
  match c.manifest with
  | some path => do
    let manifest ← during (.loadManifest path) (Manifest.load disk path)
    let base := PathText.directoryOf path
    let generated ← (pass.runManifest disk manifest base).mapError (⟨none, ·⟩)
    return Generated.append ⟨[], warnings⟩ generated
  | none => do
    let (sources, problems) := Discovery.collect disk c.sources
    let generated ← (pass.runSources sources).mapError (⟨none, ·⟩)
    return Generated.append ⟨[], warnings ++ problems⟩ generated

end Configuration

/-- What the command writes about a pass. -/
structure PassSummary where
  mode : Mode
  outputDirectory : String
  files : List String
  errors : Nat
  warnings : Nat
  deriving DecidableEq, Repr, Inhabited

/-- The summary as a value. -/
def PassSummary.toValue (s : PassSummary) : Value :=
  .object [
    ("mode", .string s.mode.name),
    ("output_dir", .string s.outputDirectory),
    ("files", .ofTexts s.files),
    ("errors", .integer s.errors),
    ("warnings", .integer s.warnings)]

namespace GenerateOptions

/-- Collects what was generated, writes it, and sums it up. -/
def finish (disk : Disk) (c : Configuration) (format : OutputFormat) (color : Bool)
    (generated : Generated) : Outcome :=
  match FileTree.ofArtifacts generated.artifacts with
  | .error fault => .failed disk ⟨some .collectOutput, .output fault⟩
  | .ok tree =>
    match tree.writeTo disk c.outputDirectory { clean := c.clean } with
    | (.error fault, disk) => .failed disk ⟨some (.writeOutput c.outputDirectory), .output fault⟩
    | (.ok _, disk) =>
      let summary : PassSummary := {
        mode := c.toPass.1.mode
        outputDirectory := c.outputDirectory
        files := tree.files.keys
        errors := Diagnostics.errorCount generated.diagnostics
        warnings := Diagnostics.warningCount generated.diagnostics }
      .reported disk format color summary.toValue generated.diagnostics

/-- Runs the command. -/
def run (options : GenerateOptions) (disk : Disk) (format : OutputFormat) (color : Bool) :
    Outcome :=
  match options.resolve disk with
  | .error failure => .failed disk failure
  | .ok c =>
    if c.sources.isEmpty && c.manifest.isNone then
      .nothingGiven disk "no source roots or manifest given (use --source or --manifest)"
    else
      match c.generate disk with
      | .error failure => .failed disk failure
      | .ok generated => finish disk c format color generated

end GenerateOptions

end ComponentWiring

import ComponentWiring.Data.Record
import ComponentWiring.Data.Toml.Reader
import ComponentWiring.Disk.PathText
import ComponentWiring.Model.Failure
import ComponentWiring.Model.Role

/-!
Settings files. Every setting has a default, and a key that is no setting is refused. The mode stays
a name here, since an unknown one is only warned about.
-/

namespace ComponentWiring

open Value

/-- The settings of a pass. -/
structure Configuration where
  /-- The name of the mode. -/
  mode : Option String := none
  outputDirectory : String := "build/generated/dslgen"
  sources : List String := []
  manifest : Option String := none
  policy : Policy := default
  convention : Convention := default
  /-- Whether the output directory is emptied first. -/
  clean : Bool := false
  deriving DecidableEq, Repr, Inhabited

namespace Configuration

/-- The settings of a value. -/
def ofValue? (value : Value) : Option Configuration :=
  let room := value.depth + 1
  match value.record? .toml true
      ["mode", "output-dir", "sources", "manifest", "zero-injected", "default-convention",
        "clean-output"] with
  | some [mode, output, sources, manifest, policy, convention, clean] => do
    let defaults : Configuration := {}
    return {
      mode := ← withDefault none nullableText? mode
      outputDirectory := ← withDefault defaults.outputDirectory text? output
      sources := ← withDefault [] (texts? room) sources
      manifest := ← withDefault none nullableText? manifest
      policy := ← withDefault default (choice? .toml Policy.ofName? room) policy
      convention := ← withDefault default (choice? .toml Convention.ofName? room) convention
      clean := ← withDefault false bool? clean }
  | _ => none

/-- The settings of a text. -/
def parse (text : String) : Except Failure Configuration :=
  match (Toml.read? text.toList).bind ofValue? with
  | some configuration => .ok configuration
  | none => .error .configuration

/-- Reads the settings from a file. -/
def load (disk : Disk) (path : String) : Except Failure Configuration :=
  match disk.read path with
  | .error fault => .error (.io path fault)
  | .ok text => parse text

/-- The settings with the paths in them seen from `base`. -/
def rebase (c : Configuration) (base : String) : Configuration :=
  { c with
    sources := c.sources.map (PathText.join base)
    manifest := c.manifest.map (PathText.join base)
    outputDirectory := PathText.join base c.outputDirectory }

end Configuration

end ComponentWiring

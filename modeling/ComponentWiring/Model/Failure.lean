import ComponentWiring.Disk.Disk
import ComponentWiring.Model.Mode
import ComponentWiring.Model.Refusal

/-!
Failures that end a command, as opposed to diagnostics. A failure says what went wrong; the steps
that were under way when it happened are put in front of it. For texts in a foreign format only the
fact that they cannot be read is kept.
-/

namespace ComponentWiring

/-- A setting that is given by name. -/
inductive Setting
  | mode
  | policy
  | convention
  | outputFormat
  deriving DecidableEq, Repr, Inhabited

/-- The setting in words. -/
def Setting.describe : Setting → String
  | mode => "generation mode"
  | policy => "zero-injected policy"
  | convention => "marker convention"
  | outputFormat => "output format"

/-- The names that the setting takes. -/
def Setting.choices : Setting → String
  | mode => "quarkus or spring"
  | policy => "always-factory or direct-construction"
  | convention => "mark-to-inject or mark-to-expose"
  | outputFormat => "json, text, or pretty"

/-- Why a manifest cannot be used. -/
inductive ManifestFault
  /-- The file is of no known format. -/
  | unknownExtension (extension : String)
  /-- The text is no manifest. -/
  | malformed
  deriving DecidableEq, Repr, Inhabited

/-- Why a path cannot be used for output. -/
inductive PathFault
  | empty
  | notRelative
  | emptyComponent
  | dotComponent
  | rootIsNoDirectory
  | rootOfDisk
  deriving DecidableEq, Repr, Inhabited

/-- The fault in words. -/
def PathFault.message : PathFault → String
  | empty => "path is empty"
  | notRelative => "path must be relative and use '/' separators"
  | emptyComponent => "empty path component"
  | dotComponent => "path must not contain '.' or '..'"
  | rootIsNoDirectory => "output root is not a directory"
  | rootOfDisk => "refusing to clean a filesystem root"

/-- Why generated files cannot be collected or written. -/
inductive OutputFault
  | invalidPath (path : String) (fault : PathFault)
  | duplicatePath (path : String)
  | io (path : String) (fault : IoFault)
  deriving DecidableEq, Repr, Inhabited

/-- The fault in words. -/
def OutputFault.message : OutputFault → String
  | invalidPath path fault => "Invalid path: " ++ path ++ " (" ++ fault.message ++ ")"
  | duplicatePath path => "Duplicate output path: " ++ path
  | io path fault => "I/O error at " ++ path ++ ": " ++ fault.message

/-- What ends a command. -/
inductive Failure
  /-- A settings file is malformed. -/
  | configuration
  /-- A setting has a name that is none of its choices. -/
  | invalidName (setting : Setting) (given : String)
  /-- A template is unknown or malformed, or its context lacks something. -/
  | template
  | manifest (path : String) (fault : ManifestFault)
  /-- Nothing can be generated for a declaration. -/
  | refused (declaration : String) (refusal : Refusal)
  | io (path : String) (fault : IoFault)
  | output (fault : OutputFault)
  deriving Repr, Inhabited

/-- A text between quotes, with quotes, backslashes and control characters escaped. -/
def quotedForReport (s : String) : String :=
  let hex (n : Nat) : List Char := Nat.toDigits 16 n
  let escaped (c : Char) : List Char :=
    if c = '"' then ['\\', '"']
    else if c = '\\' then ['\\', '\\']
    else if c = '\n' then ['\\', 'n']
    else if c = '\r' then ['\\', 'r']
    else if c = '\t' then ['\\', 't']
    else if c = '\x00' then ['\\', '0']
    else if c.toNat < 0x20 ∨ (0x7F ≤ c.toNat ∧ c.toNat < 0xA0) ∨ (c ≠ ' ' ∧ Text.isBlank c) then
      ['\\', 'u', '\x7b'] ++ hex c.toNat ++ ['\x7d']
    else [c]
  "\"" ++ String.ofList (s.toList.flatMap escaped) ++ "\""

namespace Failure

/-- The failure in words. What is wrong with a text in a foreign format is not told. -/
def message : Failure → String
  | configuration => "Configuration error: failed to parse configuration"
  | invalidName setting given =>
    "Invalid argument: invalid " ++ setting.describe ++ ": '" ++ given ++ "' (expected: " ++
      setting.choices ++ ")"
  | template => "Template error: Template rendering failed"
  | manifest path .malformed => "Manifest error in " ++ path ++ ": malformed manifest"
  | manifest path (.unknownExtension extension) =>
    "Manifest error in " ++ path ++ ": unsupported manifest extension " ++
      quotedForReport extension ++ " (expected .json or .toml)"
  | refused declaration refusal =>
    "Declaration '" ++ declaration ++ "' cannot be generated: " ++ refusal.message
  | io path fault => "I/O error on " ++ path ++ ": " ++ fault.message
  | output fault => fault.message

/-- The cause behind a failure, where it has one of its own. -/
def cause? : Failure → Option String
  | io _ fault => some fault.message
  | output (.io _ fault) => some fault.message
  | _ => none

end Failure

/-- What a command was doing. -/
inductive Step
  | loadConfiguration (path : String)
  | readPolicy
  | readConvention
  | loadManifest (path : String)
  | collectOutput
  | writeOutput (root : String)
  deriving DecidableEq, Repr, Inhabited

/-- What is said when a step fails. -/
def Step.message : Step → String
  | loadConfiguration path => "failed to load config " ++ path
  | readPolicy => "invalid --zero-injected value"
  | readConvention => "invalid --default-convention value"
  | loadManifest path => "failed to load manifest " ++ path
  | collectOutput => "generated artifacts could not be collected"
  | writeOutput root => "failed to write " ++ root

/-- A failure and the step that it ended. -/
structure StepFailure where
  step : Option Step := none
  failure : Failure
  deriving Repr, Inhabited

namespace StepFailure

/-- What there is to say, from the outermost step to the innermost cause. -/
def links (f : StepFailure) : List String :=
  (f.step.map Step.message).toList ++ [f.failure.message] ++ f.failure.cause?.toList

/-- Everything on one line. -/
def chain (f : StepFailure) : String :=
  ": ".intercalate f.links

/-- A cause with its continuation lines indented. -/
def indentedCause (first later : String) (text : String) : String :=
  first ++ ("\n" ++ later).intercalate
    ((Text.segments '\n' text.toList).map String.ofList)

/-- The causes of a report, numbered if there are several. -/
def causeLines (causes : List String) : List String :=
  match causes with
  | [] => []
  | [cause] => [indentedCause "    " "    " cause]
  | _ => causes.mapIdx fun i cause => indentedCause ("    " ++ toString i ++ ": ") "       " cause

/-- The report on several lines. -/
def report (f : StepFailure) : String :=
  match f.links with
  | [] => ""
  | top :: causes =>
    "Error: " ++ top ++
      (if causes.isEmpty then "" else "\n\nCaused by:\n" ++ "\n".intercalate (causeLines causes))

end StepFailure

/-- Says which step a failure ends. -/
def during {α : Type} (step : Step) : Except Failure α → Except StepFailure α
  | .ok value => .ok value
  | .error failure => .error ⟨some step, failure⟩

end ComponentWiring

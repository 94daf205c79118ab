import ComponentWiring.Command.Arguments
import ComponentWiring.Command.Overview

/-!
The whole program as a function: from arguments, the mode that the environment sets and the disk to
an exit code, what is written, and the disk that is left.
-/

namespace ComponentWiring

/-- The name and version of the program. -/
def versionLine : String := "dslgen 0.1.0\n"

/-- How the program is used. -/
def usageText : String :=
  "Usage: dslgen [--verbose] [--format <json|text|pretty>] <generate|scan|completions> ...\n"

/-- What the program leaves behind. -/
structure ProgramResult where
  exitCode : Nat
  stdout : String := ""
  stderr : String := ""
  disk : Disk
  deriving Inhabited

namespace ProgramResult

/-- The result of a command line that could not be used, or that asked about the program. -/
def ofStop (disk : Disk) : ArgumentStop → ProgramResult
  | .help => { exitCode := 0, stdout := usageText, disk }
  | .version => { exitCode := 0, stdout := versionLine, disk }
  | .misuse => { exitCode := 2, stderr := usageText, disk }

/-- The result of a command. A failure is told on the error stream. -/
def ofOutcome (outcome : Outcome) : ProgramResult :=
  match outcome.result with
  | .ok status =>
    { exitCode := status.code
      stdout := outcome.stdout
      stderr := outcome.stderr
      disk := outcome.disk }
  | .error failure =>
    { exitCode := 1
      stdout := outcome.stdout
      stderr := outcome.stderr ++ failure.report ++ "\n"
      disk := outcome.disk }

end ProgramResult

/-- A script that completes the names of commands in a shell. -/
def completionScript (shell : String) : String :=
  let names := "generate scan completions help"
  if shell = "fish" then "complete -c dslgen -f -a '" ++ names ++ "'\n"
  else "complete -W '" ++ names ++ "' dslgen\n"

/-- Runs a command. -/
def Command.run (command : Command) (disk : Disk) (format : OutputFormat) (color : Bool) :
    Outcome :=
  match command with
  | .generate options => options.run disk format color
  | .scan sources convention => SourceOverview.run disk sources convention format color
  | .completions shell => { result := .ok .success, stdout := completionScript shell, disk }

/-- Runs an invocation. An output format that does not exist is found out before anything is
done. -/
def Invocation.run (invocation : Invocation) (disk : Disk) (color : Bool) : Outcome :=
  match OutputFormat.parse invocation.format with
  | .error failure => .failed disk ⟨none, failure⟩
  | .ok format => invocation.command.run disk format color

/-- Runs the program. -/
def runProgram (environmentMode : Option String) (arguments : List String) (disk : Disk)
    (color : Bool) : ProgramResult :=
  match Invocation.parse environmentMode arguments with
  | .error stop => .ofStop disk stop
  | .ok invocation => .ofOutcome (invocation.run disk color)

end ComponentWiring

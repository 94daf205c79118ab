import ComponentWiring.Model.Failure
import ComponentWiring.Report.Layout

/-!
What a command leaves behind: a status or a failure, what it wrote to the two output streams, and
the disk.
-/

namespace ComponentWiring

/-- How a command that did its work ended. -/
inductive Status
  | success
  /-- There was nothing to work on. -/
  | invalidInput
  /-- Something was left out and reported. -/
  | diagnostics
  deriving DecidableEq, Repr, Inhabited

/-- The exit code of a status. -/
def Status.code : Status → Nat
  | success => 0
  | invalidInput => 2
  | diagnostics => 3

/-- The status that diagnostics give. -/
def Status.ofDiagnostics (ds : Diagnostics) : Status :=
  if ds.hasErrors then .diagnostics else .success

/-- What a command leaves behind. -/
structure Outcome where
  result : Except StepFailure Status
  stdout : String := ""
  stderr : String := ""
  disk : Disk
  deriving Inhabited

namespace Outcome

/-- A command that failed and wrote nothing. -/
def failed (disk : Disk) (failure : StepFailure) : Outcome :=
  { result := .error failure, disk }

/-- A command that was given nothing to work on. -/
def nothingGiven (disk : Disk) (message : String) : Outcome :=
  { result := .ok .invalidInput, stderr := "error: " ++ message ++ "\n", disk }

/-- A command that wrote a result and its diagnostics. -/
def reported (disk : Disk) (format : OutputFormat) (color : Bool) (value : Value)
    (diagnostics : Diagnostics) : Outcome :=
  { result := .ok (.ofDiagnostics diagnostics)
    stdout := Report.render format color value ++ "\n"
    stderr :=
      if diagnostics.isEmpty then ""
      else Report.diagnosticLines format color diagnostics ++ "\n"
    disk }

end Outcome

end ComponentWiring

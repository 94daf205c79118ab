import ComponentWiring.Model.Failure
import ComponentWiring.Report.OutputFormat
import ComponentWiring.Text.Blank
import ComponentWiring.Text.Lowercase

/-!
Settings that are given by name. Letter case does not matter; blanks around a mode and around a
policy do not matter either.
-/

namespace ComponentWiring

open Text

/-- A name in lower case. -/
def lowered (s : String) : String :=
  String.ofList (lower s.toList)

/-- A name in lower case and without the blanks around it. -/
def loweredWord (s : String) : String :=
  String.ofList (lower (trim s.toList))

/-- The value of a setting, or the refusal of its name. -/
def chosen {α : Type} (setting : Setting) (given : String) (choice : Option α) :
    Except Failure α :=
  match choice with
  | some value => .ok value
  | none => .error (.invalidName setting given)

/-- The mode that a name gives. -/
def Mode.parse (given : String) : Except Failure Mode :=
  chosen .mode given (Mode.ofName? (loweredWord given))

/-- The policy that a name gives. -/
def Policy.parse (given : String) : Except Failure Policy :=
  chosen .policy given (Policy.ofName? (loweredWord given))

/-- The convention of a full or a short name. -/
def Convention.ofShortName? (name : String) : Option Convention :=
  if name = "inject" then some .markToInject
  else if name = "expose" then some .markToExpose
  else Convention.ofName? name

/-- The convention that a name gives. -/
def Convention.parse (given : String) : Except Failure Convention :=
  chosen .convention given (Convention.ofShortName? (lowered given))

/-- The output format that a name gives. -/
def OutputFormat.parse (given : String) : Except Failure OutputFormat :=
  chosen .outputFormat given (OutputFormat.ofName? (lowered given))

/-- The mode that a setting gives. Without one it is the default mode, and for an unknown name too,
with a warning. -/
def Mode.resolve (given : Option String) : Mode × Diagnostics :=
  match given with
  | none => (default, [])
  | some name =>
    match Mode.ofName? (loweredWord name) with
    | some mode => (mode, [])
    | none =>
      (default, [{
        severity := .warning
        rule := .configuration
        subject := "mode"
        message := "unknown generation mode '" ++ name ++ "', falling back to '" ++
          (default : Mode).name ++ "'" }])

end ComponentWiring

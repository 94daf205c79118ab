import ComponentWiring.Data.Json.Printer
import ComponentWiring.Model.Diagnostic
import ComponentWiring.Report.OutputFormat
import ComponentWiring.Report.Style

/-!
Results and diagnostics as they are written. The pretty layout lists the fields of an object in the
order of their names, each on a line of its own, and the items of a list behind dashes.
-/

namespace ComponentWiring.Report

/-- The blanks in front of a line. -/
def margin (indent : Nat) : String :=
  String.ofList (List.replicate (2 * indent) ' ')

/-- A value without parts in the pretty layout. -/
def prettyScalar (color : Bool) : Value → String
  | .bool b => Style.yellow.paint color (if b then "true" else "false")
  | .integer n => Style.cyan.paint color (toString n)
  | .decimal text => Style.cyan.paint color text
  | .string s => Style.green.paint color s
  | _ => Style.dimmed.paint color "none"

/-- The fields of an object in the pretty layout. The first field of the outermost object stands on
the line on which the layout starts. -/
def prettyFields (color : Bool) (indent : Nat) (fields : List (String × String)) : String :=
  "".intercalate <| fields.mapIdx fun i (name, text) =>
    (if i > 0 || indent > 0 then "\n" ++ margin indent else "") ++
      Style.boldBlue.paint color name ++ ": " ++ text

mutual

/-- A value in the pretty layout, without sorting its fields. -/
def prettyValue (color : Bool) (indent : Nat) : Value → String
  | .array [] => "[]"
  | .array items => "".intercalate (prettyItems color indent items)
  | .object [] => "\x7b\x7d"
  | .object fields => prettyFields color indent (prettyInside color (indent + 1) fields)
  | value => prettyScalar color value

/-- The items of a list, each on a line of its own. -/
def prettyItems (color : Bool) (indent : Nat) : List Value → List String
  | [] => []
  | item :: rest =>
    ("\n" ++ margin indent ++ "- " ++ prettyValue color (indent + 1) item) ::
      prettyItems color indent rest

/-- The values of fields in the pretty layout. -/
def prettyInside (color : Bool) (indent : Nat) : List (String × Value) → List (String × String)
  | [] => []
  | (name, value) :: rest =>
    (name, prettyValue color indent value) :: prettyInside color indent rest

end

/-- A value in the pretty layout. -/
def pretty (color : Bool) (value : Value) : String :=
  prettyValue color 0 value.sortFields

/-- A value in an output format. -/
def render (format : OutputFormat) (color : Bool) (value : Value) : String :=
  match format with
  | .json => Json.indented 0 value
  | .text => Json.compact value
  | .pretty => pretty color value

/-! ## Diagnostics -/

/-- The style of a severity. -/
def styleOf : Severity → Style
  | .error => .boldRed
  | .warning => .boldYellow

/-- One line about a diagnostic. -/
def diagnosticLine (format : OutputFormat) (color : Bool) (d : Diagnostic) : String :=
  match format with
  | .pretty => (styleOf d.severity).paint color d.head ++ " " ++ d.tail
  | _ => d.render

/-- The diagnostics in the order of a report, a line each. -/
def diagnosticLines (format : OutputFormat) (color : Bool) (ds : Diagnostics) : String :=
  "\n".intercalate (ds.sorted.map (diagnosticLine format color))

end ComponentWiring.Report

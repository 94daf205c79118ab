/-!
The formats in which a command writes its result.
-/

namespace ComponentWiring

/-- How a result is written. -/
inductive OutputFormat
  /-- As indented JSON. -/
  | json
  /-- As JSON on one line. -/
  | text
  /-- As an indented list, with colours where they are wanted. -/
  | pretty
  deriving DecidableEq, Repr

namespace OutputFormat

instance : Inhabited OutputFormat := ⟨pretty⟩

/-- The name of a format. -/
def name : OutputFormat → String
  | json => "json"
  | text => "text"
  | pretty => "pretty"

/-- The format of a name. -/
def ofName? : String → Option OutputFormat
  | "json" => some json
  | "text" => some text
  | "pretty" => some pretty
  | _ => none

end OutputFormat

end ComponentWiring

import ComponentWiring.Model.Declaration

/-!
Diagnostics. A problem with one class, one property or one setting is reported and the pass goes
on. A collection keeps its entries in the order in which they were recorded; a report lists them by
place, subject, rule and message.
-/

namespace ComponentWiring

/-- How bad a diagnostic is. -/
inductive Severity
  /-- The pass went on with a substitute. -/
  | warning
  /-- Something was left out. -/
  | error
  deriving DecidableEq, Repr, Inhabited

/-- The name of a severity. -/
def Severity.name : Severity → String
  | warning => "warning"
  | error => "error"

/-- The severity of a name. -/
def Severity.ofName? : String → Option Severity
  | "warning" => some warning
  | "error" => some error
  | _ => none

/-- The rule that a diagnostic reports. -/
inductive Rule
  /-- A marked class has no usable constructor or name. -/
  | structural
  /-- A bound property is not public. -/
  | visibility
  /-- A bound property has no wrapper type with one argument. -/
  | typeShape
  /-- A setting is unknown and its default was taken. -/
  | configuration
  /-- A file could not be read. -/
  | io
  deriving DecidableEq, Repr, Inhabited

namespace Rule

/-- The name of a rule in a report. -/
def shortName : Rule → String
  | structural => "structural"
  | visibility => "visibility"
  | typeShape => "type-shape"
  | configuration => "configuration"
  | io => "io"

/-- The full name of a rule. -/
def name : Rule → String
  | structural => "structural"
  | visibility => "visibility-violation"
  | typeShape => "type-shape-violation"
  | configuration => "invalid-configuration"
  | io => "io"

/-- The rule of a full name. -/
def ofName? : String → Option Rule
  | "structural" => some structural
  | "visibility-violation" => some visibility
  | "type-shape-violation" => some typeShape
  | "invalid-configuration" => some configuration
  | "io" => some io
  | _ => none

/-- The place of a rule in the order of rules. -/
def rank : Rule → Nat
  | structural => 0
  | visibility => 1
  | typeShape => 2
  | configuration => 3
  | io => 4

end Rule

/-- A report about one class, property or setting. -/
structure Diagnostic where
  severity : Severity
  rule : Rule
  subject : String
  message : String
  location : Option Location := none
  deriving DecidableEq, Repr, Inhabited

namespace Diagnostic

/-- Whether something was left out. -/
def isError (d : Diagnostic) : Bool :=
  d.severity == .error

/-- Severity and rule, the first word of a report. -/
def head (d : Diagnostic) : String :=
  d.severity.name ++ "[" ++ d.rule.shortName ++ "]"

/-- What a report says behind its first word. -/
def tail (d : Diagnostic) : String :=
  let place :=
    match d.location with
    | some location => " (" ++ location.render ++ ")"
    | none => ""
  d.subject ++ place ++ ": " ++ d.message

/-- The diagnostic as it is reported. -/
def render (d : Diagnostic) : String :=
  d.head ++ " " ++ d.tail

/-- The order of places: unknown ones first, then by file and line. -/
def compareLocations : Option Location → Option Location → Ordering
  | none, none => .eq
  | none, some _ => .lt
  | some _, none => .gt
  | some a, some b => (compare a.file b.file).then (compare a.line b.line)

/-- The order of a report: by place, subject, rule and message. -/
def order (a b : Diagnostic) : Ordering :=
  (compareLocations a.location b.location).then <|
    (compare a.subject b.subject).then <|
      (compare a.rule.rank b.rule.rank).then (compare a.message b.message)

end Diagnostic

/-- Diagnostics in the order in which they were recorded. -/
abbrev Diagnostics := List Diagnostic

namespace Diagnostics

/-- The number of errors. -/
def errorCount (ds : Diagnostics) : Nat :=
  ds.countP Diagnostic.isError

/-- The number of warnings. -/
def warningCount (ds : Diagnostics) : Nat :=
  ds.length - errorCount ds

/-- Whether there is an error. -/
def hasErrors (ds : Diagnostics) : Bool :=
  ds.any Diagnostic.isError

/-- The diagnostics in the order of a report; those that it does not tell apart stay in the order in
which they were recorded. -/
def sorted (ds : Diagnostics) : List Diagnostic :=
  ds.mergeSort fun a b => (Diagnostic.order a b).isLE

end Diagnostics

end ComponentWiring

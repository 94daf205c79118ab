import ComponentWiring.Text.Segments

/-!
Paths as they are written. A path keeps its spelling: taking the parent cuts text off its end, and
joining puts text behind it. Empty parts and parts `.` do not count as components, except for a `.`
at the very start.
-/

namespace ComponentWiring.PathText

open Text

/-- The parts between the slashes. -/
def parts (path : String) : List String :=
  (segments '/' path.toList).map String.ofList

/-- Puts parts together again. -/
def ofParts (parts : List String) : String :=
  "/".intercalate parts

/-- Whether a path starts at the root. -/
def isAbsolute (path : String) : Bool :=
  path.startsWith "/"

/-- `path` seen from `base`. -/
def join (base path : String) : String :=
  if isAbsolute path || base.isEmpty then path
  else if base.endsWith "/" then base ++ path
  else base ++ "/" ++ path

/-- Whether a part is no component. -/
def isIdle (part : String) : Bool :=
  part.isEmpty || part == "."

/-- The parts without those at the end that are no components. -/
def dropIdle : List String → List String
  | [] => []
  | part :: rest =>
    match dropIdle rest with
    | [] => if isIdle part then [] else [part]
    | kept => part :: kept

/-- The path without its last component; nothing for a path without components. -/
def parent? (path : String) : Option String :=
  match parts path with
  | [] => none
  | first :: rest =>
    match dropIdle rest with
    | [] => if first.isEmpty then none else some ""
    | kept =>
      let above := dropIdle kept.dropLast
      if first.isEmpty && above.isEmpty then some "/" else some (ofParts (first :: above))

/-- The directory that relative paths of a file are seen from: its parent, empty if it has none. -/
def directoryOf (path : String) : String :=
  (parent? path).getD ""

/-- The last component, if it is a name. -/
def fileName? (path : String) : Option String :=
  match parts path with
  | [] => none
  | first :: rest =>
    match (first :: dropIdle rest).getLast? with
    | some name => if isIdle name || name == ".." then none else some name
    | none => none

/-- What stands behind the last dot of the name; nothing for a name that starts with its only
dot. -/
def extension? (path : String) : Option String :=
  (fileName? path).bind fun name =>
    match splitLast '.' name.toList with
    | some (_ :: _, extension) => some (String.ofList extension)
    | _ => none

end ComponentWiring.PathText

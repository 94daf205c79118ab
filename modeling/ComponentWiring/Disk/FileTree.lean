import ComponentWiring.Code.Artifact
import ComponentWiring.Model.Failure

/-!
Generated files before they are written: a table from paths to contents. A path is relative to the
output root and stays below it. The first file of a path stays; adding another one is refused.
-/

namespace ComponentWiring

open Text

/-- Files by their path under the output root. -/
structure FileTree where
  files : Keyed String := Keyed.empty
  deriving Repr, Inhabited

namespace FileTree

/-- What is wrong with one component of a path. -/
def componentFault? (component : List Char) : Option PathFault :=
  if component = [] then some .emptyComponent
  else if component = ['.'] ∨ component = ['.', '.'] then some .dotComponent
  else none

/-- What is wrong with a path. -/
def pathFault? (path : String) : Option PathFault :=
  let cs := path.toList
  if cs = [] then some .empty
  else if cs.head? = some '/' ∨ cs.contains '\\' ∨ cs.contains ':' then some .notRelative
  else (segments '/' cs).findSome? componentFault?

/-- Adds a file. -/
def add (tree : FileTree) (path content : String) : Except OutputFault FileTree :=
  match pathFault? path with
  | some fault => .error (.invalidPath path fault)
  | none =>
    if tree.files.contains path then .error (.duplicatePath path)
    else .ok ⟨tree.files.insert path content⟩

/-- Adds files as far as possible, and collects the faults of the others. -/
def addAll : FileTree → List (String × String) → FileTree × List OutputFault
  | tree, [] => (tree, [])
  | tree, (path, content) :: rest =>
    match tree.add path content with
    | .ok tree => addAll tree rest
    | .error fault =>
      let (tree, faults) := addAll tree rest
      (tree, fault :: faults)

/-- Puts generated files at their places, and collects the faults. -/
def collect (artifacts : List Artifact) : FileTree × List OutputFault :=
  addAll {} (artifacts.map fun artifact => (artifact.relativePath, artifact.content))

/-- The tree of generated files, or the first fault. -/
def ofArtifacts (artifacts : List Artifact) : Except OutputFault FileTree :=
  match collect artifacts with
  | (tree, []) => .ok tree
  | (_, fault :: _) => .error fault

end FileTree

end ComponentWiring

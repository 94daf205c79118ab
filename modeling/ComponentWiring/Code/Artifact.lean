import ComponentWiring.Keyed
import ComponentWiring.Text.Segments

/-!
Generated files, and the import lines at their head. An import block is sorted and without
repetitions; it leaves out what needs no import, namely plain names, members of the file's own
package, and members of a package that is imported as a whole.
-/

namespace ComponentWiring

open Text

/-- A generated file. -/
structure Artifact where
  package : String
  fileName : String
  content : String
  deriving DecidableEq, Repr, Inhabited

/-- Where the file belongs under the output root: a directory for every part of the package. -/
def Artifact.relativePath (artifact : Artifact) : String :=
  if artifact.package.isEmpty then artifact.fileName
  else
    let slashed (c : Char) : Char := if c = '.' then '/' else c
    String.ofList (artifact.package.toList.map slashed) ++ "/" ++ artifact.fileName

namespace ImportBlock

/-- The names that import packages as a whole; the default package is none. -/
def starNames (packages : List String) : List String :=
  (packages.filter (!·.isEmpty)).map (· ++ ".*")

/-- The package that a name imports as a whole. -/
def starPackage? (name : String) : Option String :=
  match splitLast '.' name.toList with
  | some (package, ['*']) => some (String.ofList package)
  | _ => none

/-- Whether a name needs an import line in a file of `package`. -/
def isNeeded (stars : List String) (package name : String) : Bool :=
  match splitLast '.' name.toList with
  | some (owner, member) =>
    String.ofList owner != package && (member == ['*'] || !stars.contains (String.ofList owner))
  | none => false

/-- The import lines for a sorted list of names in a file of `package`. -/
def lines (names : List String) (package : String) : List String :=
  let stars := names.filterMap starPackage?
  (names.filter (isNeeded stars package)).map ("import " ++ ·)

end ImportBlock

end ComponentWiring

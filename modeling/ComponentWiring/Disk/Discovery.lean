import ComponentWiring.Disk.Disk
import ComponentWiring.Model.Diagnostic

/-!
Finding source files. Every root is searched depth first with the names of a directory in order, so
the files come in the same order wherever the directories were filled in another one. A root that is
missing and a file that does not hold text are reported, and the search goes on.
-/

namespace ComponentWiring

/-- A source file: the path under which it was found, and its text. -/
structure SourceText where
  path : String
  text : String
  deriving DecidableEq, Repr, Inhabited

namespace Discovery

/-- The extension of a source file. -/
def sourceExtension : String := "kt"

/-- What the search finds: a source file, or a report about a path. -/
abbrev Finding := Except Diagnostic SourceText

/-- A report about a path. -/
def report (path message : String) : Finding :=
  .error { severity := .error, rule := .io, subject := path, message }

/-- The report about a root that cannot be searched. -/
def missingRoot (root : String) (fault : IoFault) : Finding :=
  report root ("IO error for operation on " ++ root ++ ": " ++ fault.message)

/-- The source file of a path and an entry. -/
def fileAt (path : String) (entry : Option Entry) : List Finding :=
  if PathText.extension? path == some sourceExtension then
    match Disk.textOf entry with
    | .ok text => [.ok ⟨path, text⟩]
    | .error fault => [report path ("failed to read source: " ++ fault.message)]
  else []

/-- What is found at a place and below it, at most `fuel` levels deep. -/
def below (disk : Disk) : (fuel : Nat) → Place → (path : String) → List Finding
  | 0, _, _ => []
  | fuel + 1, place, path =>
    if disk.isDirectoryAt place then
      (disk.names place).flatMap fun name =>
        below disk fuel (place ++ [name]) (PathText.join path name)
    else fileAt path (disk.entry? place)

/-- What is found from a root. No place lies deeper than there are entries. -/
def fromRoot (disk : Disk) (root : String) : List Finding :=
  match disk.find root with
  | .ok place => below disk (disk.entries.length + 1) place root
  | .error fault => [missingRoot root fault]

/-- The source files under the roots and the reports about them. -/
def collect (disk : Disk) (roots : List String) : List SourceText × Diagnostics :=
  let findings := roots.flatMap (fromRoot disk)
  (findings.filterMap Except.toOption, findings.filterMap fun found =>
    match found with
    | .error diagnostic => some diagnostic
    | .ok _ => none)

end Discovery

end ComponentWiring

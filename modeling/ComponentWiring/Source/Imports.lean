import ComponentWiring.Keyed
import ComponentWiring.Model.Component
import ComponentWiring.Source.Token

/-!
The package line and the import lines of a source file, and the table of names they make. A name is
resolved in a fixed order: an explicit import, a type that every file sees, a known type of a
star-imported package, and last a member of the file's own package. A dotted name is expanded if its
first part is imported and is taken as qualified otherwise.
-/

namespace ComponentWiring.Source

open Text

/-- The imports of one file and its package. -/
structure Imports where
  package : String := ""
  aliases : Keyed String := Keyed.empty
  stars : List String := []
  deriving Repr, Inhabited

namespace Imports

/-- The table without imports. -/
def forPackage (package : String) : Imports :=
  { package }

/-- Records an import of a qualified name, under its last part or under an alias. -/
def insert (table : Imports) (qualified : String) (givenName : Option String) : Imports :=
  { table with
    aliases := table.aliases.insert (givenName.getD (TypeExpr.lastPart qualified)) qualified }

/-- Records an import of everything in a package. -/
def insertStar (table : Imports) (package : String) : Imports :=
  if table.stars.contains package then table
  else { table with stars := table.stars ++ [package] }

/-- The qualified name that is imported under a name. -/
def imported? (table : Imports) (name : String) : Option String :=
  table.aliases.get? name

/-- The qualified name of a name as it is written. -/
def resolve (table : Imports) (written : String) : String :=
  match splitFirst '.' written.toList with
  | some (head, rest) =>
    match table.imported? (String.ofList head) with
    | some qualified => qualified ++ "." ++ String.ofList rest
    | none => written
  | none =>
    match table.imported? written with
    | some qualified => qualified
    | none =>
      match builtin? written with
      | some qualified => qualified
      | none =>
        match (table.stars.map (· ++ "." ++ written)).find? isKnownType with
        | some qualified => qualified
        | none => if table.package.isEmpty then written else table.package ++ "." ++ written

end Imports

/-! ## The lines at the head of a file -/

/-- Reads something at the start of a line, behind blanks; the blanks may hold further lines. -/
def atLineStart {α : Type} (reader : List Char → Option (α × List Char)) : ReaderAt α :=
  fun previous cs =>
    match previous with
    | none => reader (trimStart cs)
    | some '\n' => reader (trimStart cs)
    | some _ => none

/-- A package line. -/
def packageLine? (cs : List Char) : Option (List Char × List Char) := do
  let rest ← dropText? "package".toList cs
  let rest ← afterBlanks? rest
  let name := rest.takeWhile isDottedChar
  if name.isEmpty then none else return (name, rest.dropWhile isDottedChar)

/-- The package that a text declares, empty if it declares none. -/
def declaredPackage (cs : List Char) : String :=
  match occurrences (atLineStart packageLine?) cs with
  | [] => ""
  | found :: _ => String.ofList found.value

/-- What an import line imports. -/
inductive ImportLine
  /-- A single name, possibly under an alias. -/
  | single (qualified : String) (givenName : Option String)
  /-- Everything in a package. -/
  | star (package : String)
  deriving DecidableEq, Repr, Inhabited

/-- Whether nothing but blanks comes before the end of the line. A semicolon may stand among them,
and blanks may run on over line breaks. -/
def endsLine (cs : List Char) : Bool :=
  let breaks (cs : List Char) := cs.isEmpty || (cs.takeWhile isBlank).contains '\n'
  breaks cs ||
    match trimStart cs with
    | [] => true
    | ';' :: rest => breaks rest || (trimStart rest).isEmpty
    | _ => false

/-- The alias behind the word `as`, and the text behind it. -/
def givenName? (cs : List Char) : Option (List Char × List Char) := do
  let rest ← afterBlanks? cs
  let rest ← dropText? "as".toList rest
  let rest ← afterBlanks? rest
  let name := rest.takeWhile isWordChar
  if name.isEmpty then none else return (name, rest.dropWhile isWordChar)

/-- What may follow the imported name: an alias and the end of the line. An alias that the line does
not end behind is none. -/
def importTail? (cs : List Char) : Option (Option String × List Char) :=
  let plain := if endsLine cs then some (none, cs) else none
  match givenName? cs with
  | some (name, rest) => if endsLine rest then some (some (String.ofList name), rest) else plain
  | none => plain

/-- An import line. -/
def importLine? (cs : List Char) : Option (ImportLine × List Char) := do
  let rest ← dropText? "import".toList cs
  let rest ← afterBlanks? rest
  let name := rest.takeWhile isDottedChar
  match rest.dropWhile isDottedChar, splitLast '.' name with
  | '*' :: rest, some (package, []) =>
    if package.isEmpty then none
    else
      let (_, rest) ← importTail? rest
      return (.star (String.ofList package), rest)
  | rest, _ =>
    if name.isEmpty then none
    else
      let (givenName, rest) ← importTail? rest
      return (.single (String.ofList name) givenName, rest)

/-- The import lines of a text, in order. -/
def importLines (cs : List Char) : List ImportLine :=
  (occurrences (atLineStart importLine?) cs).map (·.value)

/-- Records one import line. -/
def Imports.add (table : Imports) : ImportLine → Imports
  | .single qualified givenName => table.insert qualified givenName
  | .star package => table.insertStar package

/-- The table of the imports that a text declares. -/
def Imports.ofText (cs : List Char) : Imports :=
  (importLines cs).foldl Imports.add (forPackage (declaredPackage cs))

end ComponentWiring.Source

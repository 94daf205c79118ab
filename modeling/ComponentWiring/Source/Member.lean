import ComponentWiring.Model.Declaration
import ComponentWiring.Source.Token

/-!
Members of a class body. `ownMembers` blanks out what stands in inner braces, so that only the
members of the class itself remain visible; it keeps every offset and every line break.
-/

namespace ComponentWiring.Source

open Text

/-- A character as it shows at depth `before`, where `after` is the depth behind it: hidden inside
inner braces, unless it is a line break or the brace that ends them. -/
def shown (before after : Nat) (c : Char) : List Char :=
  if before > 0 ∧ after > 0 ∧ c ≠ '\n' then List.replicate c.utf8Size ' ' else [c]

/-- The brace depth behind a character. -/
def braceDepth (depth : Nat) (literal : LiteralState) (c : Char) : Nat :=
  if literal ≠ .code then depth
  else if c = '{' then depth + 1
  else if c = '}' then depth - 1
  else depth

/-- The text with the inside of braces blanked out, from a given depth and literal state. -/
def directMembersFrom : (depth : Nat) → LiteralState → List Char → List Char
  | _, _, [] => []
  | depth, literal, c :: rest =>
    let after := braceDepth depth literal c
    shown depth after c ++ directMembersFrom after (literal.step c) rest

/-- A class body with the inside of its inner braces blanked out. -/
def ownMembers (body : List Char) : List Char :=
  directMembersFrom 0 .code body

/-! ## Properties -/

/-- The modifiers that can stand before a property. -/
def propertyModifiers : List String := [
  "public", "private", "protected", "internal", "override", "open", "final", "lateinit", "const",
  "abstract"]

/-- A property as it is written. -/
structure PropertyText where
  annotations : List (List Char)
  modifiers : List String
  name : String
  /-- The text between the colon and whatever ends the type. -/
  type : Option (List Char)
  deriving Repr, Inhabited

/-- A blank that does not end a line. -/
def isInlineBlank (c : Char) : Bool :=
  c == ' ' || c == '\t'

/-- The written type of a property: what follows a colon, up to an equals sign, a line break or a
brace. -/
def propertyType? (cs : List Char) : Option (List Char × List Char) :=
  match cs.dropWhile isInlineBlank with
  | ':' :: rest =>
    let rest := rest.dropWhile isInlineBlank
    let inType (c : Char) : Bool := c != '=' && c != '\n' && c != '{'
    let type := rest.takeWhile inType
    if type.isEmpty then none else some (type, rest.dropWhile inType)
  | _ => none

/-- A property, as far as its type. It starts at the start of a word or with an annotation. -/
def property? : ReaderAt PropertyText := fun previous cs =>
  if cs.head? = some '@' ∨ !previous.any isWordChar then do
    let (annotations, rest) := annotations cs
    let (modifiers, rest) := readAll (wordOf? propertyModifiers) rest
    let (_, rest) ← wordOf? ["val", "var"] rest
    let (name, rest) ← name? rest
    match propertyType? rest with
    | some (type, rest) => return (⟨annotations, modifiers, String.ofList name, some type⟩, rest)
    | none => return (⟨annotations, modifiers, String.ofList name, none⟩, rest)
  else none

/-- The properties in a text. -/
def properties (cs : List Char) : List (Occurrence PropertyText) :=
  occurrences property? cs

/-- A secondary constructor: the word with a parenthesis behind it. -/
def secondaryConstructor? : ReaderAt Unit := fun previous cs =>
  if previous.all (fun c => !isDottedChar c) then
    match dropText? "constructor".toList cs with
    | none => none
    | some rest =>
      match trimStart rest with
      | '(' :: rest => some ((), rest)
      | _ => none
  else none

end ComponentWiring.Source

import ComponentWiring.Source.Literal
import ComponentWiring.Text.Blank
import ComponentWiring.Text.Occurrences
import ComponentWiring.Text.Segments
import ComponentWiring.Text.WordChar

/-!
The small pieces of source text: names, annotations and modifiers. Each reader takes the text at a
place and returns what it read together with the text it left.

An annotation is read as far as its argument list goes without inner parentheses; one whose
arguments hold parentheses is not an annotation to these readers.
-/

namespace ComponentWiring.Source

open Text

/-- A character that a name can start with. -/
def isNameStart (c : Char) : Bool :=
  isAsciiLetter c || c == '_'

/-- A character of a dotted name. -/
def isDottedChar (c : Char) : Bool :=
  isWordChar c || c == '.'

/-- A name, as far as it goes. -/
def name? : List Char → Option (List Char × List Char)
  | [] => none
  | c :: rest =>
    if isNameStart c then some (c :: rest.takeWhile isWordChar, rest.dropWhile isWordChar) else none

/-- A name that a colon follows, possibly behind blanks; the colon is taken too. -/
def nameAndColon? (cs : List Char) : Option (List Char × List Char) :=
  match name? cs with
  | none => none
  | some (name, rest) =>
    match trimStart rest with
    | ':' :: rest => some (name, rest)
    | _ => none

/-- One of the given words with blanks behind it; the blanks are taken too. -/
def wordOf? (allowed : List String) (cs : List Char) : Option (String × List Char) :=
  let word := String.ofList (cs.takeWhile isWordChar)
  if allowed.contains word then
    (afterBlanks? (cs.dropWhile isWordChar)).map fun rest => (word, rest)
  else none

/-! ## Annotations -/

/-- The text behind a use-site target such as `field:`, or the whole text if there is none. -/
def afterUseSite (cs : List Char) : List Char :=
  match cs.takeWhile isWordChar, cs.dropWhile isWordChar with
  | _ :: _, ':' :: rest => rest
  | _, _ => cs

/-- The text behind an argument list without inner parentheses, or the whole text if there is
none. -/
def afterPlainArguments (cs : List Char) : List Char :=
  match cs with
  | '(' :: rest =>
    match rest.dropWhile (fun c => c != '(' && c != ')') with
    | ')' :: after => after
    | _ => cs
  | _ => cs

/-- The text behind an argument list that ends at the first closing parenthesis, or the whole text
if there is none. -/
def afterArguments (cs : List Char) : List Char :=
  match cs with
  | '(' :: rest =>
    match rest.dropWhile (· != ')') with
    | ')' :: after => after
    | _ => cs
  | _ => cs

/-- An annotation and the blanks behind it, with its arguments skipped by `skipArguments`. What is
returned is the text of the annotation without the blanks. -/
def annotationWith? (skipArguments : List Char → List Char) (cs : List Char) :
    Option (List Char × List Char) :=
  match cs with
  | '@' :: rest =>
    let named := afterUseSite rest
    if (named.takeWhile isDottedChar).isEmpty then none
    else
      let left := skipArguments (named.dropWhile isDottedChar)
      (afterBlanks? left).map fun after => (cs.take (cs.length - left.length), after)
  | _ => none

/-- An annotation and the blanks behind it. -/
def annotation? : List Char → Option (List Char × List Char) :=
  annotationWith? afterPlainArguments

/-- All annotations at a place. -/
def annotations : List Char → List (List Char) × List Char :=
  readAll annotation?

/-- The name of an annotation at a place, without use-site target and arguments. -/
def annotationName? (cs : List Char) : Option (List Char × List Char) :=
  match cs with
  | '@' :: rest =>
    let named := afterUseSite rest
    let chosen := if (named.takeWhile isDottedChar).isEmpty then rest else named
    if (chosen.takeWhile isDottedChar).isEmpty then none
    else some (chosen.takeWhile isDottedChar, chosen.dropWhile isDottedChar)
  | _ => none

/-- The names of the annotations in a text, those in arguments included. -/
def annotationNames (cs : List Char) : List (List Char) :=
  (occurrences (fun _ => annotationName?) cs).map (·.value)

/-- Whether some annotation has the given simple name, qualified or not. -/
def carriesMarker (texts : List (List Char)) (simple : String) : Bool :=
  texts.any fun text => (annotationNames text).any fun name => afterLast '.' name = simple.toList

/-! ## Modifiers -/

/-- Reads modifiers as long as they come and then goes on with `finish`. The last modifier is given
back if the rest cannot be read behind it, so that a modifier word can serve as a name. -/
def withModifiers {α : Type} (allowed : List String) (finish : List Char → Option α) :
    (fuel : Nat) → List Char → Option (List String × α)
  | 0, cs => (finish cs).map fun value => ([], value)
  | fuel + 1, cs =>
    let here := (finish cs).map fun value => ([], value)
    match wordOf? allowed cs with
    | none => here
    | some (word, rest) =>
      match withModifiers allowed finish fuel rest with
      | some (words, value) => some (word :: words, value)
      | none => here

/-- Modifiers, as many as there are, and then what `finish` reads. -/
def modifiersThen {α : Type} (allowed : List String) (finish : List Char → Option α)
    (cs : List Char) : Option (List String × α) :=
  withModifiers allowed finish cs.length cs

end ComponentWiring.Source

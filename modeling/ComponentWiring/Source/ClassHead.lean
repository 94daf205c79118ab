import ComponentWiring.Source.Token

/-!
The heads of classes: annotations, modifiers, one of the words `class`, `interface` and `object`,
and a name. A head starts at the start of the text or behind a character that cannot belong to a
name, an annotation or a qualified reference.
-/

namespace ComponentWiring.Source

open Text

/-- The word that introduces a class. -/
inductive ClassWord
  | ofClass
  | ofInterface
  | ofObject
  deriving DecidableEq, Repr, Inhabited

/-- The word behind which a class name follows. -/
def ClassWord.ofWord? : String → Option ClassWord
  | "class" => some .ofClass
  | "interface" => some .ofInterface
  | "object" => some .ofObject
  | _ => none

/-- The words that introduce a class. -/
def classWords : List String :=
  ["class", "interface", "object"]

/-- The modifiers that can stand before a class. -/
def classModifiers : List String := [
  "public", "private", "protected", "internal", "open", "abstract", "sealed", "data", "final",
  "inner", "value", "inline", "enum", "annotation", "fun", "companion", "expect", "actual"]

/-- The head of a class. -/
structure ClassHead where
  annotations : List (List Char)
  modifiers : List String
  word : ClassWord
  name : String
  deriving Repr, Inhabited

/-- What a head declares. -/
inductive ClassForm
  | plainClass
  | interfaceType
  | objectType
  | enumClass
  | annotationClass
  deriving DecidableEq, Repr, Inhabited

/-- The kind in words. -/
def ClassForm.describe : ClassForm → String
  | plainClass => "a class"
  | interfaceType => "an interface"
  | objectType => "an object"
  | enumClass => "an enum class"
  | annotationClass => "an annotation class"

namespace ClassHead

/-- Whether the head carries a modifier. -/
def has (head : ClassHead) (modifier : String) : Bool :=
  head.modifiers.contains modifier

/-- What the head declares. -/
def kind (head : ClassHead) : ClassForm :=
  match head.word with
  | .ofInterface => .interfaceType
  | .ofObject => .objectType
  | .ofClass =>
    if head.has "enum" then .enumClass
    else if head.has "annotation" then .annotationClass
    else .plainClass

end ClassHead

/-- A character behind which a head can start. -/
def precedesHead (c : Char) : Bool :=
  !(isWordChar c || c == ':' || c == '.' || c == '@')

/-- The head of a class, as far as the name. -/
def classHead? : ReaderAt ClassHead := fun previous cs =>
  if previous.all precedesHead then do
    let (annotations, rest) := annotations cs
    let (modifiers, rest) := readAll (wordOf? classModifiers) rest
    let (word, rest) ← wordOf? classWords rest
    let word ← ClassWord.ofWord? word
    let (name, rest) ← name? rest
    return (⟨annotations, modifiers, word, String.ofList name⟩, rest)
  else none

/-- The heads in a text, each with the text behind its name. -/
def classHeads (cs : List Char) : List (Occurrence ClassHead) :=
  occurrences classHead? cs

end ComponentWiring.Source

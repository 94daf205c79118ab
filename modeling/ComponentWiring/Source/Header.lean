import ComponentWiring.Model.Declaration
import ComponentWiring.Source.ClassHead
import ComponentWiring.Source.Closing
import ComponentWiring.Source.Fragment

/-!
What follows the name of a class: its type parameters, its primary constructor, its supertypes and
its body. Constructor and body are reported as stretches of the text, with the offset at which they
start.
-/

namespace ComponentWiring.Source

open Text

/-- A stretch of a text and the byte offset at which it starts. -/
structure Stretch where
  start : Nat
  text : List Char
  deriving DecidableEq, Repr, Inhabited

/-- The byte offset at which a stretch ends. -/
def Stretch.stop (s : Stretch) : Nat :=
  s.start + byteLength s.text

/-- How a class declares its primary constructor. -/
inductive ConstructorForm
  /-- With a parameter list; `inside` is what stands between the parentheses. -/
  | primary (inside : Stretch) (visibility : Visibility)
  /-- Not at all, so that there is one without parameters. -/
  | implicit
  /-- With a parenthesis or a bracket that nothing closes, or a keyword without parentheses. -/
  | unbalanced
  deriving Repr, Inhabited

/-- What follows the name of a class. -/
structure Header where
  typeParameters : List String := []
  shape : ConstructorForm := .implicit
  supertypes : List (List Char) := []
  body : Option Stretch := none
  deriving Repr, Inhabited

/-! ## Type parameters -/

/-- The name in a type parameter such as `@A reified T : Bound`: its first word that is neither an
annotation nor a modifier, up to a colon. -/
def typeParameterName? (entry : List Char) : Option String :=
  ((words entry).find? fun word =>
      !(word.head? == some '@' || ["in", "out", "reified"].contains (String.ofList word))).map
    fun word => String.ofList (beforeFirst ':' word)

/-- The names in a list of type parameters. -/
def typeParameterNames (cs : List Char) : List String :=
  (topLevelParts cs).filterMap typeParameterName?

/-! ## Constructors -/

/-- The visibilities that can stand before the word `constructor`. -/
def constructorModifiers : List String :=
  ["public", "private", "protected", "internal"]

/-- Annotations, a visibility and the word `constructor`, with the blanks behind it. -/
def constructorPrefix? (cs : List Char) : Option (Visibility × List Char) :=
  let rest := (annotations cs).2
  let (visibility, rest) :=
    match wordOf? constructorModifiers rest with
    | some (word, rest) => ((Visibility.ofKeyword? word).getD .everywhere, rest)
    | none => (.everywhere, rest)
  (dropText? "constructor".toList rest).map fun rest => (visibility, trimStart rest)

/-! ## Supertypes -/

/-- How far the supertype list has been read: its open brackets, whether a dash came just before,
and its last character that is not blank. -/
structure SupertypeState where
  depth : Nat := 0
  afterDash : Bool := false
  lastSolid : Option Char := none
  deriving DecidableEq, Repr, Inhabited

namespace SupertypeState

/-- The state behind one more character. -/
def step (s : SupertypeState) (c : Char) : SupertypeState :=
  { depth :=
      if c = '(' ∨ c = '[' ∨ c = '<' then s.depth + 1
      else if c = ')' ∨ c = ']' ∨ (c = '>' ∧ ¬s.afterDash) then s.depth - 1
      else s.depth
    afterDash := c == '-'
    lastSolid := if isBlank c then s.lastSolid else some c }

/-- Whether the list ends before a character: at a brace, and at a line break unless the list is
empty so far, ends in a comma, or goes on with a comma or a brace. -/
def endsBefore (s : SupertypeState) (c : Char) (rest : List Char) : Bool :=
  s.depth == 0 &&
    (c == '{' ||
      (c == '\n' &&
        !(s.lastSolid == none || s.lastSolid == some ',' ||
          (trimStart rest).head? == some ',' || (trimStart rest).head? == some '{')))

end SupertypeState

/-- The supertype list behind a colon, and the text behind it. -/
def supertypeStretch : SupertypeState → List Char → List Char × List Char
  | _, [] => ([], [])
  | s, c :: rest =>
    if s.endsBefore c rest then ([], c :: rest)
    else
      let (taken, left) := supertypeStretch (s.step c) rest
      (c :: taken, left)

/-- A supertype list without its `where` clause. -/
def dropWhere (cs : List Char) : List Char :=
  match splitAtText " where ".toList cs with
  | some (before, _) => before
  | none => beforeText "\nwhere ".toList cs

/-- The text before the first parenthesis outside angle brackets, all of it if there is none. -/
def beforeCall : (angles : Nat) → (afterDash : Bool) → List Char → List Char
  | _, _, [] => []
  | angles, afterDash, c :: rest =>
    if c = '(' ∧ angles = 0 then []
    else
      let angles :=
        if c = '<' then angles + 1
        else if c = '>' ∧ ¬afterDash then angles - 1
        else angles
      c :: beforeCall angles (c == '-') rest

/-- The type in an entry such as `Base(argument)` or `Base by delegate`. -/
def supertypeName (entry : List Char) : List Char :=
  trim (beforeCall 0 false (trim (beforeText " by ".toList entry)))

/-- The types in a supertype list. -/
def supertypeNames (cs : List Char) : List (List Char) :=
  ((topLevelParts (trim (dropWhere cs))).map supertypeName).filter (!·.isEmpty)

/-! ## The whole header -/

/-- Supertypes and body, at a place behind the constructor. -/
def Header.readTail (header : Header) (offset : Nat) (cs : List Char) : Header :=
  let total := offset + byteLength cs
  let afterSupertypes (header : Header) (cs : List Char) : Header :=
    match cs, enclosed? '{' '}' cs with
    | '{' :: _, some (inside, _) =>
      { header with body := some ⟨total - byteLength cs + 1, inside⟩ }
    | _, _ => header
  match trimStart cs with
  | ':' :: rest =>
    let (list, left) := supertypeStretch {} rest
    afterSupertypes { header with supertypes := supertypeNames list } (trimStart left)
  | rest => afterSupertypes header rest

/-- Constructor, supertypes and body, at a place behind the type parameters. -/
def Header.readConstructor (header : Header) (offset : Nat) (cs : List Char) : Header :=
  let total := offset + byteLength cs
  let keyword := constructorPrefix? cs
  let (visibility, rest) := keyword.getD (.everywhere, cs)
  match rest, enclosed? '(' ')' rest with
  | '(' :: _, some (inside, left) =>
    let inside := ⟨total - byteLength rest + 1, inside⟩
    { header with shape := .primary inside visibility }.readTail (total - byteLength left) left
  | '(' :: _, none => { header with shape := .unbalanced }
  | _, _ =>
    if keyword.isSome then { header with shape := .unbalanced }
    else header.readTail offset cs

/-- Reads what follows the name of a class. `offset` is where the text stands in the unit. -/
def Header.read (offset : Nat) (cs : List Char) : Header :=
  let total := offset + byteLength cs
  let rest := trimStart cs
  match rest, enclosed? '<' '>' rest with
  | '<' :: _, some (inside, left) =>
    let left := trimStart left
    { typeParameters := typeParameterNames inside : Header }.readConstructor
      (total - byteLength left) left
  | '<' :: _, none => { shape := .unbalanced }
  | _, _ => ({} : Header).readConstructor (total - byteLength rest) rest

/-- The inside of the primary constructor of the first class of a given name that has one with a
parameter list. -/
def constructorStretch? (masked : List Char) (name : String) : Option Stretch :=
  (classHeads masked).findSome? fun head =>
    if head.value.name = name then
      match (Header.read head.stop head.rest).shape with
      | .primary inside _ => some inside
      | _ => none
    else none

end ComponentWiring.Source

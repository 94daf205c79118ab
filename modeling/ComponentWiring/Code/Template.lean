import ComponentWiring.Data.Value
import ComponentWiring.Keyed
import ComponentWiring.Text.Blank
import ComponentWiring.Text.Segments
import ComponentWiring.Text.WordChar

/-!
Templates. A template is text with tags in double braces: a name is replaced by its value, the two
blocks `#if` and `#each` choose and repeat what stands in them. Values are laid out verbatim, and a
name that the context lacks is an error, except as the condition of `#if`, where it does not hold.

A block tag that stands alone on its line takes the whole line with it, so that the lines of a
template are the lines of what it lays out.
-/

namespace ComponentWiring

open Text

/-- A part of a template. A path leads from the value in focus to one of its parts; the empty path
is the value itself. -/
inductive TemplatePart
  | text (content : List Char)
  | name (path : List String)
  | choice (path : List String) (yes no : List TemplatePart)
  | each (path : List String) (body : List TemplatePart)
  deriving Repr, Inhabited

/-- A template that has been read. -/
abbrev Template := List TemplatePart

namespace Template

/-! ## Tags -/

/-- A tag. -/
inductive Tag
  | name (path : List String)
  | openIf (path : List String)
  | openEach (path : List String)
  | otherwise
  | closeIf
  | closeEach
  deriving DecidableEq, Repr, Inhabited

/-- Whether a tag belongs to a block. -/
def Tag.isBlock : Tag → Bool
  | .name _ => false
  | _ => true

/-- The text before the double braces that end a tag, and the text behind them. -/
def untilClose? (cs : List Char) : Option (List Char × List Char) :=
  splitAtText ['\x7d', '\x7d'] cs

/-- A path: names with dots between them, where `this` is the value in focus. -/
def path? (cs : List Char) : Option (List String) :=
  let names := (segments '.' cs).map String.ofList
  if names.all fun name => !name.isEmpty && name.toList.all isWordChar then
    some (match names with
      | "this" :: rest => rest
      | _ => names)
  else none

/-- The tag with the given text between its braces. -/
def tag? (cs : List Char) : Option Tag :=
  match words cs with
  | [word] =>
    if word = "else".toList then some .otherwise
    else if word = "/if".toList then some .closeIf
    else if word = "/each".toList then some .closeEach
    else (path? word).map .name
  | [word, argument] =>
    if word = "#if".toList then (path? argument).map .openIf
    else if word = "#each".toList then (path? argument).map .openEach
    else none
  | _ => none

/-- Text or a tag. -/
inductive Token
  | text (content : List Char)
  | tag (tag : Tag)
  deriving DecidableEq, Repr, Inhabited

/-- Puts a character in front of tokens. -/
def consChar (c : Char) : List Token → List Token
  | .text content :: rest => .text (c :: content) :: rest
  | tokens => .text [c] :: tokens

/-- The tokens of a template; nothing if a tag is malformed or does not end. Every tag takes
characters, so that `fuel` need not exceed the length of the text. -/
def tokens? : (fuel : Nat) → List Char → Option (List Token)
  | _, [] => some []
  | 0, _ => none
  | fuel + 1, '\x7b' :: '\x7b' :: rest =>
    match untilClose? rest with
    | none => none
    | some (inside, left) =>
      match tag? inside, tokens? fuel left with
      | some tag, some tokens => some (.tag tag :: tokens)
      | _, _ => none
  | fuel + 1, c :: rest => (tokens? fuel rest).map (consChar c)

/-! ## Lines that hold nothing but a tag -/

/-- A blank within a line. -/
def isLineBlank (c : Char) : Bool :=
  c == ' ' || c == '\t'

/-- What is left of a text in front of a tag that stands at the start of its line; nothing if it
does not stand there. `atStart` says that the text is the first thing on its line. -/
def beforeAlone? (atStart : Bool) (content : List Char) : Option (List Char) :=
  let kept := (content.reverse.dropWhile isLineBlank).reverse
  if kept.getLast? = some '\n' ∨ (kept.isEmpty ∧ atStart) then some kept else none

/-- What is left of a text behind a tag that stands at the end of its line; nothing if it does not
stand there. `atEnd` says that nothing follows the text. -/
def afterAlone? (atEnd : Bool) (content : List Char) : Option (List Char) :=
  match content.dropWhile isLineBlank with
  | '\n' :: rest => some rest
  | '\r' :: '\n' :: rest => some rest
  | [] => if atEnd then some [] else none
  | _ => none

/-- Takes the lines that hold nothing but a block tag out. `atStart` says that the first token is
the first thing on its line. -/
def dropTagLines : (fuel : Nat) → (atStart : Bool) → List Token → List Token
  | 0, _, tokens => tokens
  | _, _, [] => []
  | fuel + 1, atStart, .text before :: .tag tag :: rest =>
    if tag.isBlock then
      match beforeAlone? atStart before, rest with
      | some kept, .text after :: others =>
        match afterAlone? others.isEmpty after with
        | some left => .text kept :: .tag tag :: dropTagLines fuel true (.text left :: others)
        | none => .text before :: .tag tag :: dropTagLines fuel false rest
      | some kept, [] => [.text kept, .tag tag]
      | _, _ => .text before :: .tag tag :: dropTagLines fuel false rest
    else .text before :: .tag tag :: dropTagLines fuel false rest
  | fuel + 1, atStart, .tag tag :: rest =>
    if tag.isBlock && atStart then dropTagLines fuel true (.text [] :: .tag tag :: rest)
    else .tag tag :: dropTagLines fuel false rest
  | fuel + 1, _, .text content :: rest => .text content :: dropTagLines fuel false rest

/-! ## Blocks -/

/-- What ends a block. -/
inductive Ending
  | end
  | tag (tag : Tag)
  deriving DecidableEq, Repr, Inhabited

/-- The parts up to the end of a block, what ends it, and the tokens behind it. -/
def partsUpTo : (fuel : Nat) → List Token → Option (Template × Ending × List Token)
  | 0, _ => none
  | _, [] => some ([], .end, [])
  | fuel + 1, .text content :: rest => do
    let (parts, ending, left) ← partsUpTo fuel rest
    return (.text content :: parts, ending, left)
  | fuel + 1, .tag (.name path) :: rest => do
    let (parts, ending, left) ← partsUpTo fuel rest
    return (.name path :: parts, ending, left)
  | fuel + 1, .tag (.openIf path) :: rest => do
    let (yes, ending, left) ← partsUpTo fuel rest
    let (no, ending, left) ←
      if ending = .tag .otherwise then partsUpTo fuel left else some ([], ending, left)
    if ending ≠ .tag .closeIf then none
    else
      let (parts, ending, left) ← partsUpTo fuel left
      return (.choice path yes no :: parts, ending, left)
  | fuel + 1, .tag (.openEach path) :: rest => do
    let (body, ending, left) ← partsUpTo fuel rest
    if ending ≠ .tag .closeEach then none
    else
      let (parts, ending, left) ← partsUpTo fuel left
      return (.each path body :: parts, ending, left)
  | _ + 1, .tag tag :: rest => some ([], .tag tag, rest)

/-- Reads a template. -/
def read? (text : List Char) : Option Template := do
  let tokens ← tokens? text.length text
  let tokens := dropTagLines (2 * tokens.length + 1) true tokens
  let (parts, ending, _) ← partsUpTo (tokens.length + 1) tokens
  if ending = .end then some parts else none

/-! ## Laying out -/

/-- The part of a value that a path leads to. -/
def at? : List String → Value → Option Value
  | [], value => some value
  | name :: rest, value => (value.field? name).bind (at? rest)

/-- Whether a value holds as a condition. -/
def holds : Option Value → Bool
  | some (.bool b) => b
  | some (.integer n) => n != 0
  | some (.decimal _) => true
  | some (.string s) => !s.isEmpty
  | some (.array items) => !items.isEmpty
  | some (.object fields) => !fields.isEmpty
  | _ => false

mutual

/-- A value as it is laid out. -/
def valueText : Value → String
  | .bool b => if b then "true" else "false"
  | .integer n => toString n
  | .decimal text => text
  | .string s => s
  | .array items => "[" ++ ", ".intercalate (valueTexts items) ++ "]"
  | .object _ => "[object]"
  | _ => ""

/-- Values as they are laid out. -/
def valueTexts : List Value → List String
  | [] => []
  | item :: rest => valueText item :: valueTexts rest

end

/-- The values that a block repeats over. -/
def itemsOf : Option Value → Option (List Value)
  | some (.array items) => some items
  | some (.object fields) => some ((Value.inOrder fields).map (·.2))
  | _ => none

mutual

/-- One part of a template, laid out for the value in focus. -/
def layPart (value : Value) : TemplatePart → Option (List Char)
  | .text content => some content
  | .name path => (at? path value).map fun found => (valueText found).toList
  | .choice path yes no => if holds (at? path value) then lay value yes else lay value no
  | .each path body => do
    let items ← itemsOf (at? path value)
    let pieces ← items.mapM fun item => lay item body
    return pieces.flatten

/-- A template, laid out for the value in focus. -/
def lay (value : Value) : List TemplatePart → Option (List Char)
  | [] => some []
  | part :: rest => do
    let first ← layPart value part
    let others ← lay value rest
    return first ++ others

end

/-- The text of a template for a context; nothing if the context lacks something. -/
def render? (template : Template) (context : Value) : Option String :=
  (lay context template).map String.ofList

end Template

end ComponentWiring

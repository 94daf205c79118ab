import ComponentWiring.Source.Literal

/-!
Comments. `mask` blanks them out and leaves everything else where it is: a masked text has the same
bytes at the same offsets and the same line breaks, with a space for every byte of a comment. A
line comment ends before its line break and a block comment at its first closing mark, or both at
the end of the text; marks inside literals are part of the literal.
-/

namespace ComponentWiring.Source

/-- Where a place stands with respect to comments. -/
inductive CommentState
  /-- Outside any comment. -/
  | source (literal : LiteralState)
  /-- In a line comment. -/
  | line
  /-- Behind the slash that opens a block comment, before its asterisk. -/
  | opening
  /-- In a block comment; `star` says whether an asterisk came just before. -/
  | block (star : Bool)
  deriving DecidableEq, Repr, Inhabited

/-- What stands for a character of a comment: a line break stays, and any other character leaves a
space for each of its bytes. -/
def blankFor (c : Char) : List Char :=
  if c = '\n' then ['\n'] else List.replicate c.utf8Size ' '

namespace CommentState

/-- What is written for a character and the state behind it, given the character that follows. -/
def step (state : CommentState) (c : Char) (next : Option Char) : List Char × CommentState :=
  match state with
  | source .code =>
    if c = '/' ∧ next = some '/' then ([' '], line)
    else if c = '/' ∧ next = some '*' then ([' '], opening)
    else ([c], source (LiteralState.code.step c))
  | source literal => ([c], source (literal.step c))
  | line => (blankFor c, if c = '\n' then source .code else line)
  | opening => (blankFor c, block false)
  | block star => (blankFor c, if star ∧ c = '/' then source .code else block (c = '*'))

/-- The text with its comments blanked out, read from a given state. -/
def mask (state : CommentState) : List Char → List Char
  | [] => []
  | c :: rest =>
    let (written, next) := state.step c rest.head?
    written ++ mask next rest

end CommentState

/-- The text with its comments blanked out. -/
def blankComments (cs : List Char) : List Char :=
  CommentState.mask (.source .code) cs

end ComponentWiring.Source

import ComponentWiring.Source.Comment
import ComponentWiring.Text.Blank

/-!
Expressions as they stand in default values. `bareExpression` takes the comments out, each block
comment leaving one space and a line comment ending the text, and then strips blanks, one run of
trailing commas and semicolons, and blanks again.
-/

namespace ComponentWiring.Source

open Text

/-- The text without comments: a block comment leaves one space, also where it never ends, and a
line comment takes everything behind it along. -/
def withoutComments : CommentState → List Char → List Char
  | .opening, [] => [' ']
  | .block _, [] => [' ']
  | _, [] => []
  | .source .code, c :: rest =>
    if c = '/' ∧ rest.head? = some '/' then []
    else if c = '/' ∧ rest.head? = some '*' then withoutComments .opening rest
    else c :: withoutComments (.source (LiteralState.code.step c)) rest
  | .source literal, c :: rest => c :: withoutComments (.source (literal.step c)) rest
  | .line, _ :: _ => []
  | .opening, _ :: rest => withoutComments (.block false) rest
  | .block star, c :: rest =>
    if star ∧ c = '/' then ' ' :: withoutComments (.source .code) rest
    else withoutComments (.block (c = '*')) rest

/-- A character that may trail an expression without belonging to it. -/
def isSeparator (c : Char) : Bool :=
  c == ',' || c == ';'

/-- The text without its trailing separators. -/
def dropTrailingSeparators : List Char → List Char
  | [] => []
  | c :: rest =>
    match dropTrailingSeparators rest with
    | [] => if isSeparator c then [] else [c]
    | kept => c :: kept

/-- An expression without comments, surrounding blanks and trailing separators. -/
def bareExpression (cs : List Char) : List Char :=
  trim (dropTrailingSeparators (trim (withoutComments (.source .code) cs)))

end ComponentWiring.Source

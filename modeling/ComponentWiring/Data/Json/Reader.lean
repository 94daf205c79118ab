import ComponentWiring.Data.Value
import ComponentWiring.Text.Numeric

/-!
Reading JSON. The reader accepts exactly the texts of the grammar: no comments, no trailing commas,
no byte order mark and nothing behind the value. A string whose escapes name half of a surrogate
pair is well-formed but stands for no text; it is read as a foreign value, and so is an object with
such a key.

Every reader takes the text at a place and returns what it read with the text it left. The number
that limits the depth is the length of the text, which no nesting can exceed.
-/

namespace ComponentWiring.Json

open Text

/-- The characters that may stand between the tokens. -/
def isSpace (c : Char) : Bool :=
  c == ' ' || c == '\n' || c == '\t' || c == '\r'

/-- The text at the next token. -/
def skipSpace (cs : List Char) : List Char :=
  cs.dropWhile isSpace

/-! ## Strings -/

/-- The value of a hexadecimal digit. -/
def hexDigit? (c : Char) : Option Nat :=
  if '0' ≤ c ∧ c ≤ '9' then some (c.toNat - '0'.toNat)
  else if 'a' ≤ c ∧ c ≤ 'f' then some (c.toNat - 'a'.toNat + 10)
  else if 'A' ≤ c ∧ c ≤ 'F' then some (c.toNat - 'A'.toNat + 10)
  else none

/-- The number that hexadecimal digits stand for. -/
def hexNumber? (digits : List Char) : Option Nat :=
  digits.foldlM (fun n c => (hexDigit? c).map (16 * n + ·)) 0

/-- The character of an escape of one letter. -/
def simpleEscape? : Char → Option Char
  | '"' => some '"'
  | '\\' => some '\\'
  | '/' => some '/'
  | 'b' => some '\x08'
  | 'f' => some '\x0c'
  | 'n' => some '\n'
  | 'r' => some '\r'
  | 't' => some '\t'
  | _ => none

/-- Whether a number is the first half of a surrogate pair. -/
def isHighHalf (n : Nat) : Bool :=
  0xD800 ≤ n && n < 0xDC00

/-- Whether a number is the second half of a surrogate pair. -/
def isLowHalf (n : Nat) : Bool :=
  0xDC00 ≤ n && n < 0xE000

/-- Puts a character in front of a text, if both are there. -/
def consText? (c : Option Char) (text : Option (List Char)) : Option (List Char) :=
  match c, text with
  | some c, some text => some (c :: text)
  | _, _ => none

/-- The characters of a string behind its opening quote, and the text behind its closing quote.
There are no characters if a surrogate stands alone; `high` is the first half of a pair that came
just before. -/
def stringBody? : (high : Option Nat) → List Char → Option (Option (List Char) × List Char)
  | _, [] => none
  | high, '"' :: rest => some (if high.isSome then none else some [], rest)
  | high, '\\' :: 'u' :: a :: b :: c :: d :: rest =>
    match hexNumber? [a, b, c, d], high with
    | none, _ => none
    | some n, none =>
      if isHighHalf n then stringBody? (some n) rest
      else
        (stringBody? none rest).map fun (text, left) =>
          (consText? (if isLowHalf n then none else some (Char.ofNat n)) text, left)
    | some n, some h =>
      (stringBody? none rest).map fun (text, left) =>
        let pair := 0x10000 + (h - 0xD800) * 0x400 + (n - 0xDC00)
        (consText? (if isLowHalf n then some (Char.ofNat pair) else none) text, left)
  | high, '\\' :: c :: rest =>
    match simpleEscape? c with
    | none => none
    | some escaped =>
      (stringBody? none rest).map fun (text, left) =>
        (consText? (if high.isSome then none else some escaped) text, left)
  | high, c :: rest =>
    if c.toNat < 0x20 then none
    else
      (stringBody? none rest).map fun (text, left) =>
        (consText? (if high.isSome then none else some c) text, left)

/-! ## Numbers -/

/-- One digit or more. -/
def digits? (cs : List Char) : Option (List Char × List Char) :=
  if (cs.takeWhile isAsciiDigit).isEmpty then none
  else some (cs.takeWhile isAsciiDigit, cs.dropWhile isAsciiDigit)

/-- Digits without a leading zero. -/
def wholePart? (cs : List Char) : Option (List Char × List Char) :=
  match digits? cs with
  | some ('0' :: _ :: _, _) => none
  | found => found

/-- The fraction of a number, empty if there is none. -/
def fraction? : List Char → Option (List Char × List Char)
  | '.' :: rest => (digits? rest).map fun (digits, left) => ('.' :: digits, left)
  | cs => some ([], cs)

/-- A sign, if there is one. -/
def sign : List Char → List Char × List Char
  | '+' :: rest => (['+'], rest)
  | '-' :: rest => (['-'], rest)
  | cs => ([], cs)

/-- The exponent of a number, empty if there is none. -/
def exponent? : List Char → Option (List Char × List Char)
  | [] => some ([], [])
  | c :: rest =>
    if c = 'e' ∨ c = 'E' then
      let (signText, rest) := sign rest
      (digits? rest).map fun (digits, left) => (c :: signText ++ digits, left)
    else some ([], c :: rest)

/-- The number that decimal digits stand for. -/
def digitsValue (digits : List Char) : Nat :=
  digits.foldl (fun n c => 10 * n + (c.toNat - '0'.toNat)) 0

/-- A number; minus zero is no integer. -/
def number? (cs : List Char) : Option (Value × List Char) := do
  let (negative, rest) :=
    match cs with
    | '-' :: rest => (true, rest)
    | _ => (false, cs)
  let (whole, rest) ← wholePart? rest
  let (fraction, rest) ← fraction? rest
  let (exponent, rest) ← exponent? rest
  let magnitude := digitsValue whole
  if fraction.isEmpty ∧ exponent.isEmpty ∧ ¬(negative ∧ magnitude = 0) then
    return (.integer (if negative then -magnitude else magnitude), rest)
  else
    let signText := if negative then ['-'] else []
    return (.decimal (String.ofList (signText ++ whole ++ fraction ++ exponent)), rest)

/-! ## Values -/

/-- Items with commas between them, up to a closing bracket. -/
def itemsUpTo {α : Type} (close : Char) (item : List Char → Option (α × List Char)) :
    (fuel : Nat) → List Char → Option (List α × List Char)
  | 0, _ => none
  | fuel + 1, cs =>
    match item (skipSpace cs) with
    | none => none
    | some (value, rest) =>
      match skipSpace rest with
      | ',' :: rest =>
        (itemsUpTo close item fuel rest).map fun (values, left) => (value :: values, left)
      | c :: rest => if c = close then some ([value], rest) else none
      | [] => none

/-- The items between brackets, behind the opening one. -/
def bracketed? {α : Type} (close : Char) (item : List Char → Option (α × List Char))
    (cs : List Char) : Option (List α × List Char) :=
  match skipSpace cs with
  | [] => none
  | c :: rest => if c = close then some ([], rest) else itemsUpTo close item cs.length cs

/-- A field of an object. The name is missing if it stands for no text. -/
def member? (value : List Char → Option (Value × List Char)) (cs : List Char) :
    Option ((Option String × Value) × List Char) :=
  match cs with
  | '"' :: rest => do
    let (name, rest) ← stringBody? none rest
    match skipSpace rest with
    | ':' :: rest =>
      let (value, left) ← value (skipSpace rest)
      return ((name.map String.ofList, value), left)
    | _ => none
  | _ => none

/-- An object of the given fields, foreign if one of the names is missing. -/
def objectOf (members : List (Option String × Value)) : Value :=
  match members.mapM fun (name, value) => name.map fun name => (name, value) with
  | some fields => .object fields
  | none => .foreign

/-- A value whose nesting is at most `fuel` deep. -/
def value? : (fuel : Nat) → List Char → Option (Value × List Char)
  | 0, _ => none
  | fuel + 1, cs =>
    match cs with
    | '{' :: rest =>
      (bracketed? '}' (member? (value? fuel)) rest).map fun (members, left) =>
        (objectOf members, left)
    | '[' :: rest =>
      (bracketed? ']' (value? fuel) rest).map fun (items, left) => (.array items, left)
    | '"' :: rest =>
      (stringBody? none rest).map fun (text, left) =>
        (match text with
          | some text => .string (String.ofList text)
          | none => .foreign, left)
    | 't' :: 'r' :: 'u' :: 'e' :: rest => some (.bool true, rest)
    | 'f' :: 'a' :: 'l' :: 's' :: 'e' :: rest => some (.bool false, rest)
    | 'n' :: 'u' :: 'l' :: 'l' :: rest => some (.null, rest)
    | _ => number? cs

/-- The value that a text stands for. -/
def read? (text : List Char) : Option Value :=
  match value? (text.length + 1) (skipSpace text) with
  | some (value, rest) => if (skipSpace rest).isEmpty then some value else none
  | none => none

end ComponentWiring.Json

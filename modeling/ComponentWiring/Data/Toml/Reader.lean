import ComponentWiring.Data.Toml.Scalar

/-!
Reading TOML. A document is a list of lines that set keys in tables; `Node` is the tree they build.
The tree remembers how a table came to be, since that decides what may still be added to it: a
table that a header has named is complete once the next header comes, one that only a longer header
has passed through can still be named, and one that dotted keys have made can only be extended by
dotted keys. Nothing can be added to a value.
-/

namespace ComponentWiring.Toml

open Text

/-! ## The tree -/

/-- How a table came to be. -/
inductive Origin
  /-- A longer header passed through it. -/
  | passed
  /-- Dotted keys made it. -/
  | dotted
  /-- A header or braces named it. -/
  | named
  deriving DecidableEq, Repr, Inhabited

/-- What stands under a key. -/
inductive Node
  | value (value : Value)
  | table (origin : Origin) (fields : List (String × Node))
  /-- A list of tables, made by headers in double brackets. -/
  | tables (items : List (List (String × Node)))
  deriving Repr, Inhabited

/-- The keys of a table in the order in which they were set. -/
abbrev Fields := List (String × Node)

/-- Sets a key, in place of what was there. -/
def Fields.set (fields : Fields) (key : String) (node : Node) : Fields :=
  if fields.any (·.1 == key) then
    fields.map fun field => if field.1 == key then (key, node) else field
  else fields ++ [(key, node)]

/-- Changes the last of several tables. -/
def changeLast (change : Fields → Option Fields) :
    List Fields → Option (List Fields)
  | [] => none
  | [last] => (change last).map ([·])
  | first :: rest => (changeLast change rest).map (first :: ·)

/-- Changes the table that keys lead to. Missing tables are made with the given origin, and only
tables that `passable` accepts are entered. -/
def changeAt (origin : Origin) (passable : Origin → Bool)
    (change : Option Origin → Fields → Option Fields) :
    (last : Option Origin) → List String → Fields → Option Fields
  | last, [], fields => change last fields
  | _, key :: rest, fields =>
    match fields.lookup key with
    | none =>
      (changeAt origin passable change (some origin) rest []).map fun sub =>
        fields.set key (.table origin sub)
    | some (.table known sub) =>
      if passable known then
        (changeAt origin passable change (some known) rest sub).map fun sub =>
          fields.set key (.table known sub)
      else none
    | some (.tables items) =>
      (changeLast (changeAt origin passable change (some .named) rest) items).map fun items =>
        fields.set key (.tables items)
    | some (.value _) => none

/-- Changes the table that a header leads to. -/
def changeUnder (path : List String) (change : Fields → Option Fields) (fields : Fields) :
    Option Fields :=
  changeAt .passed (fun _ => true) (fun _ => change) none path fields

/-- Names a table. -/
def nameTable (path : List String) (fields : Fields) : Option Fields :=
  match path.getLast? with
  | none => none
  | some key =>
    changeUnder path.dropLast (fun above =>
      match above.lookup key with
      | none => some (above.set key (.table .named []))
      | some (.table .passed sub) => some (above.set key (.table .named sub))
      | _ => none) fields

/-- Adds a table to a list of tables. -/
def addTable (path : List String) (fields : Fields) : Option Fields :=
  match path.getLast? with
  | none => none
  | some key =>
    changeUnder path.dropLast (fun above =>
      match above.lookup key with
      | none => some (above.set key (.tables [[]]))
      | some (.tables items) => some (above.set key (.tables (items ++ [[]])))
      | _ => none) fields

/-- Sets a dotted key. The tables on the way must not have been named, and the last one must have
been made by dotted keys. -/
def assign (path : List String) (node : Node) (fields : Fields) : Option Fields :=
  match path.getLast? with
  | none => none
  | some key =>
    changeAt .dotted (fun known => known != .named) (fun last table =>
      if last.all (· == .dotted) && (table.lookup key).isNone then some (table.set key node)
      else none) none path.dropLast fields

mutual

/-- The value that a tree stands for. -/
def Node.toValue : Node → Value
  | .value known => known
  | .table _ fields => .object (fieldValues fields)
  | .tables items => .array (tableValues items)

/-- The values that the keys of a table stand for. -/
def fieldValues : List (String × Node) → List (String × Value)
  | [] => []
  | (key, node) :: rest => (key, node.toValue) :: fieldValues rest

/-- The values that tables stand for. -/
def tableValues : List (List (String × Node)) → List Value
  | [] => []
  | fields :: rest => .object (fieldValues fields) :: tableValues rest

end

/-! ## Keys -/

/-- A character of a key without quotes. -/
def isKeyPart (c : Char) : Bool :=
  isAsciiDigit c || isAsciiLetter c || c == '_' || c == '-'

/-- A key without dots. -/
def simpleKey? (cs : List Char) : Option (String × List Char) :=
  match cs with
  | '"' :: rest =>
    (basicBody? (cs.length + 1) rest).map fun (text, left) => (String.ofList text, left)
  | '\'' :: rest => (literalBody? rest).map fun (text, left) => (String.ofList text, left)
  | _ =>
    let name := cs.takeWhile isKeyPart
    if name.isEmpty then none else some (String.ofList name, cs.dropWhile isKeyPart)

/-- A key, with dots between its parts, and the text behind the blanks that follow. -/
def key? : (fuel : Nat) → List Char → Option (List String × List Char)
  | 0, _ => none
  | fuel + 1, cs => do
    let (first, rest) ← simpleKey? (skipInline cs)
    match skipInline rest with
    | '.' :: rest =>
      let (others, left) ← key? fuel rest
      return (first :: others, left)
    | rest => return ([first], rest)

/-- A key and the equals sign behind it. -/
def keyAndEquals? (cs : List Char) : Option (List String × List Char) := do
  let (path, rest) ← key? (cs.length + 1) cs
  let rest ← dropText? ['='] rest
  return (path, skipInline rest)

/-! ## Values -/

/-- How deep lists and inline tables may be nested. -/
def maxDepth : Nat := 80

/-- Parts with commas between them, up to a closing bracket; a comma may follow the last part, and
line breaks and comments may stand everywhere. -/
def partsUpTo {α : Type} (close : Char) (part : List Char → Option (α × List Char)) :
    (fuel : Nat) → List Char → Option (List α × List Char)
  | 0, _ => none
  | fuel + 1, cs =>
    match skipFiller cs with
    | [] => none
    | c :: rest =>
      if c = close then some ([], rest)
      else
        match part (c :: rest) with
        | none => none
        | some (value, rest) =>
          match skipFiller rest with
          | ',' :: rest =>
            (partsUpTo close part fuel rest).map fun (values, left) => (value :: values, left)
          | d :: rest => if d = close then some ([value], rest) else none
          | [] => none

/-- The fields of an inline table. -/
def inlineFields? (assignments : List (List String × Value)) : Option Fields :=
  assignments.foldlM (fun fields (path, value) => assign path (.value value) fields) []

/-- A value in which lists and inline tables are nested at most `depth` deep. -/
def value? : (depth : Nat) → List Char → Option (Value × List Char)
  | 0, _ => none
  | depth + 1, cs =>
    match cs with
    | '[' :: rest =>
      if depth = 0 then none
      else
        (partsUpTo ']' (value? depth) rest.length rest).map fun (items, left) =>
          (.array items, left)
    | '\x7b' :: rest =>
      if depth = 0 then none
      else do
        let assignment (cs : List Char) : Option ((List String × Value) × List Char) := do
          let (path, rest) ← keyAndEquals? cs
          let (value, left) ← value? depth rest
          return ((path, value), left)
        let (assignments, left) ← partsUpTo '\x7d' assignment rest.length rest
        let fields ← inlineFields? assignments
        return ((Node.table .named fields).toValue, left)
    | c :: _ =>
      if c = '"' ∨ c = '\'' then
        (string? cs).map fun (text, left) => (.string (String.ofList text), left)
      else
        let (text, left) := word cs
        (wordValue? text).map fun value => (value, left)
    | [] => none

/-! ## Lines -/

/-- One line of a document. -/
inductive Line
  | blank
  | header (path : List String)
  /-- A header in double brackets. -/
  | listHeader (path : List String)
  | setting (path : List String) (value : Value)
  deriving Repr, Inhabited

/-- What a line holds in front of its comment. -/
def content? (cs : List Char) : Option (Line × List Char) :=
  match cs with
  | '[' :: '[' :: rest => do
    let (path, rest) ← key? (rest.length + 1) rest
    let left ← dropText? [']', ']'] rest
    return (.listHeader path, left)
  | '[' :: rest => do
    let (path, rest) ← key? (rest.length + 1) rest
    let left ← dropText? [']'] rest
    return (.header path, left)
  | [] => some (.blank, [])
  | c :: _ =>
    if c = '#' ∨ (lineBreak? cs).isSome then some (.blank, cs)
    else do
      let (path, rest) ← keyAndEquals? cs
      let (value, left) ← value? (maxDepth + 1) rest
      return (.setting path value, left)

/-- A whole line, and the text behind its line break. -/
def line? (cs : List Char) : Option (Line × List Char) := do
  let (line, rest) ← content? (skipInline cs)
  match skipComment (skipInline rest) with
  | [] => return (line, [])
  | rest =>
    let left ← lineBreak? rest
    return (line, left)

/-- A document as far as it has been read: its tree and the table that settings go to. -/
structure Document where
  fields : Fields := []
  current : List String := []

/-- Takes one line into a document. -/
def Document.add? (document : Document) : Line → Option Document
  | .blank => some document
  | .header path => (nameTable path document.fields).map fun fields => ⟨fields, path⟩
  | .listHeader path => (addTable path document.fields).map fun fields => ⟨fields, path⟩
  | .setting path value =>
    (changeUnder document.current (assign path (.value value)) document.fields).map fun fields =>
      { document with fields }

/-- Takes the lines of a text into a document. -/
def readLines : (fuel : Nat) → Document → List Char → Option Document
  | 0, _, _ => none
  | fuel + 1, document, cs =>
    if cs.isEmpty then some document
    else
      match line? cs with
      | none => none
      | some (line, rest) =>
        match document.add? line with
        | none => none
        | some document => readLines fuel document rest

/-- The value that a document stands for, an object. -/
def read? (text : List Char) : Option Value :=
  let text := if text.head? = some '\uFEFF' then text.tail else text
  (readLines (text.length + 1) {} text).map fun document =>
    (Node.table .named document.fields).toValue

end ComponentWiring.Toml

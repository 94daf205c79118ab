import ComponentWiring.Data.Value

/-!
Writing JSON, on one line or indented by two spaces a level. Of the characters of a string only the
quote, the backslash and the control characters below the space are escaped; everything else stands
for itself.
-/

namespace ComponentWiring.Json

/-- The character of a hexadecimal digit. -/
def hexChar (n : Nat) : Char :=
  if n < 10 then Char.ofNat ('0'.toNat + n) else Char.ofNat ('a'.toNat + (n - 10))

/-- A character as it stands in a string. -/
def escapedChar (c : Char) : List Char :=
  if c = '"' then ['\\', '"']
  else if c = '\\' then ['\\', '\\']
  else if c = '\n' then ['\\', 'n']
  else if c = '\r' then ['\\', 'r']
  else if c = '\t' then ['\\', 't']
  else if c = '\x08' then ['\\', 'b']
  else if c = '\x0c' then ['\\', 'f']
  else if c.toNat < 0x20 then
    ['\\', 'u', '0', '0', hexChar (c.toNat / 16), hexChar (c.toNat % 16)]
  else [c]

/-- A text as a string of the format. -/
def quoted (s : String) : String :=
  "\"" ++ String.ofList (s.toList.flatMap escapedChar) ++ "\""

/-- A value without parts. -/
def scalarText : Value → String
  | .bool b => if b then "true" else "false"
  | .integer n => toString n
  | .decimal text => text
  | .string s => quoted s
  | _ => "null"

mutual

/-- A value on one line. -/
def compact : Value → String
  | .array items => "[" ++ ",".intercalate (compactItems items) ++ "]"
  | .object fields => "\x7b" ++ ",".intercalate (compactFields fields) ++ "\x7d"
  | value => scalarText value

/-- The items of an array, each on one line. -/
def compactItems : List Value → List String
  | [] => []
  | item :: rest => compact item :: compactItems rest

/-- The fields of an object, each on one line. -/
def compactFields : List (String × Value) → List String
  | [] => []
  | (name, value) :: rest => (quoted name ++ ":" ++ compact value) :: compactFields rest

end

/-- The blanks that indent a line. -/
def indentation (level : Nat) : String :=
  String.ofList (List.replicate (2 * level) ' ')

/-- Parts in brackets, each on a line of its own. -/
def block (level : Nat) (opening closing : String) (parts : List String) : String :=
  match parts with
  | [] => opening ++ closing
  | _ =>
    let separator := ",\n" ++ indentation (level + 1)
    opening ++ "\n" ++ indentation (level + 1) ++ separator.intercalate parts ++ "\n" ++
      indentation level ++ closing

mutual

/-- A value with every part on a line of its own. -/
def indented (level : Nat) : Value → String
  | .array items => block level "[" "]" (indentedItems (level + 1) items)
  | .object fields => block level "\x7b" "\x7d" (indentedFields (level + 1) fields)
  | value => scalarText value

/-- The items of an array, with every part on a line of its own. -/
def indentedItems (level : Nat) : List Value → List String
  | [] => []
  | item :: rest => indented level item :: indentedItems level rest

/-- The fields of an object, with every part on a line of its own. -/
def indentedFields (level : Nat) : List (String × Value) → List String
  | [] => []
  | (name, value) :: rest =>
    (quoted name ++ ": " ++ indented level value) :: indentedFields level rest

end

end ComponentWiring.Json

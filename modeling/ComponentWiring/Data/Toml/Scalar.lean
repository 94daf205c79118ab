import ComponentWiring.Data.Json.Reader
import ComponentWiring.Text.Segments

/-!
The simple values of TOML: strings of four kinds, numbers, truth values and dates. Numbers with a
fraction and dates are checked for their form; what they say is not looked at, since no setting
takes them.
-/

namespace ComponentWiring.Toml

open Text

/-! ## Characters -/

/-- A blank within a line. -/
def isInline (c : Char) : Bool :=
  c == ' ' || c == '\t'

/-- A character that may stand in a comment or a string. -/
def isPlain (c : Char) : Bool :=
  c == '\t' || (0x20 ≤ c.toNat && c.toNat != 0x7F)

/-- The text behind a line break, if one comes first. -/
def lineBreak? : List Char → Option (List Char)
  | '\n' :: rest => some rest
  | '\r' :: '\n' :: rest => some rest
  | _ => none

/-- The text behind the blanks of a line. -/
def skipInline (cs : List Char) : List Char :=
  cs.dropWhile isInline

/-- The text behind a comment, if one comes first. -/
def skipComment : List Char → List Char
  | '#' :: rest => rest.dropWhile isPlain
  | cs => cs

/-- The text behind blanks, line breaks and comments, at most `fuel` lines of them. -/
def skipLines : (fuel : Nat) → List Char → List Char
  | 0, cs => cs
  | fuel + 1, cs =>
    let here := skipComment (skipInline cs)
    match lineBreak? here with
    | some rest => skipLines fuel rest
    | none => here

/-- The text behind blanks, line breaks and comments. -/
def skipFiller (cs : List Char) : List Char :=
  skipLines (cs.length + 1) cs

/-! ## Strings -/

/-- The character of a number, if it has one. -/
def scalar? (n : Nat) : Option Char :=
  if n < 0xD800 ∨ (0xDFFF < n ∧ n < 0x110000) then some (Char.ofNat n) else none

/-- The character that an escape of `count` hexadecimal digits names. -/
def hexEscape? (count : Nat) (cs : List Char) : Option (Char × List Char) :=
  if cs.length < count then none
  else ((Json.hexNumber? (cs.take count)).bind scalar?).map fun c => (c, cs.drop count)

/-- The character that an escape names, behind the backslash. -/
def escape? : List Char → Option (Char × List Char)
  | 'x' :: rest => hexEscape? 2 rest
  | 'u' :: rest => hexEscape? 4 rest
  | 'U' :: rest => hexEscape? 8 rest
  | 'b' :: rest => some ('\x08', rest)
  | 't' :: rest => some ('\t', rest)
  | 'n' :: rest => some ('\n', rest)
  | 'f' :: rest => some ('\x0c', rest)
  | 'r' :: rest => some ('\r', rest)
  | 'e' :: rest => some ('\x1b', rest)
  | '"' :: rest => some ('"', rest)
  | '\\' :: rest => some ('\\', rest)
  | _ => none

/-- Puts a character in front of what was read. -/
def consRead (c : Char) : Option (List Char × List Char) → Option (List Char × List Char)
  | some (text, left) => some (c :: text, left)
  | none => none

/-- A string with escapes, behind its opening quote. -/
def basicBody? : (fuel : Nat) → List Char → Option (List Char × List Char)
  | 0, _ => none
  | _ + 1, '"' :: rest => some ([], rest)
  | fuel + 1, '\\' :: rest =>
    match escape? rest with
    | some (c, left) => consRead c (basicBody? fuel left)
    | none => none
  | fuel + 1, c :: rest => if isPlain c then consRead c (basicBody? fuel rest) else none
  | _ + 1, [] => none

/-- A string without escapes, behind its opening quote. -/
def literalBody? : List Char → Option (List Char × List Char)
  | [] => none
  | c :: rest =>
    if c = '\'' then some ([], rest)
    else if isPlain c then consRead c (literalBody? rest)
    else none

/-- The end of a string over several lines: three quotes, with up to two more that belong to the
string. -/
def longEnd? (quote : Char) (cs : List Char) : Option (List Char × List Char) :=
  let run := (cs.takeWhile (· == quote)).length
  if run < 3 then none
  else
    let extra := min (run - 3) 2
    some (List.replicate extra quote, cs.drop (3 + extra))

/-- The text behind a backslash at the end of a line: further blanks and line breaks are left
out. -/
def afterLineEnd? (cs : List Char) : Option (List Char) :=
  let isFiller (c : Char) : Bool := isInline c || c == '\n' || c == '\r'
  match lineBreak? (skipInline cs) with
  | some rest => some (rest.dropWhile isFiller)
  | none => none

/-- A string over several lines, behind its opening quotes. Escapes count between double quotes
only. -/
def longBody? (quote : Char) : (fuel : Nat) → List Char → Option (List Char × List Char)
  | 0, _ => none
  | _ + 1, [] => none
  | fuel + 1, c :: rest =>
    match longEnd? quote (c :: rest) with
    | some found => some found
    | none =>
      if c = '\\' ∧ quote = '"' then
        match afterLineEnd? rest with
        | some left => longBody? quote fuel left
        | none =>
          match escape? rest with
          | some (escaped, left) => consRead escaped (longBody? quote fuel left)
          | none => none
      else if isPlain c ∨ c = '\n' ∨ (c = '\r' ∧ rest.head? = some '\n') then
        consRead c (longBody? quote fuel rest)
      else none

/-- The text behind the first line break, if it comes first. -/
def afterOpening (cs : List Char) : List Char :=
  (lineBreak? cs).getD cs

/-- A string of any kind. -/
def string? (cs : List Char) : Option (List Char × List Char) :=
  let fuel := cs.length + 1
  match cs with
  | '"' :: '"' :: '"' :: rest => longBody? '"' fuel (afterOpening rest)
  | '"' :: rest => basicBody? fuel rest
  | '\'' :: '\'' :: '\'' :: rest => longBody? '\'' fuel (afterOpening rest)
  | '\'' :: rest => literalBody? rest
  | _ => none

/-! ## Numbers -/

/-- The digits of a group of digits between which single underscores may stand. -/
def groupedDigits? (isDigit : Char → Bool) (cs : List Char) : Option (List Char) :=
  let groups := segments '_' cs
  if groups.all fun group => !group.isEmpty && group.all isDigit then some groups.flatten else none

/-- The number that digits of a base stand for. -/
def numberIn (base : Nat) (digits : List Char) : Nat :=
  digits.foldl (fun n c => base * n + (Json.hexDigit? c).getD 0) 0

/-- An integer, if it fits into 128 bits, with a sign or without. What a setting can hold of it is
for the reader of the setting to say. -/
def inRange? (n : Int) : Option Value :=
  if -Int.pow 2 127 ≤ n ∧ n < Int.pow 2 128 then some (.integer n) else none

/-- A text without its sign, and whether the sign is a minus. -/
def unsigned : List Char → Bool × List Char
  | '-' :: rest => (true, rest)
  | '+' :: rest => (false, rest)
  | cs => (false, cs)

/-- Digits without a leading zero. -/
def decimalDigits? (cs : List Char) : Option (List Char) :=
  match groupedDigits? isAsciiDigit cs with
  | some ('0' :: _ :: _) => none
  | found => found

/-- A whole number. -/
def integer? (cs : List Char) : Option Value :=
  let isHex (c : Char) : Bool := (Json.hexDigit? c).isSome
  let isOctal (c : Char) : Bool := '0' ≤ c && c ≤ '7'
  let isBinary (c : Char) : Bool := c == '0' || c == '1'
  match cs with
  | '0' :: 'x' :: rest => (groupedDigits? isHex rest).bind fun ds => inRange? (numberIn 16 ds)
  | '0' :: 'o' :: rest => (groupedDigits? isOctal rest).bind fun ds => inRange? (numberIn 8 ds)
  | '0' :: 'b' :: rest => (groupedDigits? isBinary rest).bind fun ds => inRange? (numberIn 2 ds)
  | _ =>
    let (negative, rest) := unsigned cs
    (decimalDigits? rest).bind fun ds =>
      let n : Int := numberIn 10 ds
      inRange? (if negative then -n else n)

/-- A number with a fraction, an exponent or both, or one that is not finite. -/
def fractional? (cs : List Char) : Option Value :=
  let (_, rest) := unsigned cs
  let isExponent (c : Char) : Bool := c == 'e' || c == 'E'
  let mantissa := rest.takeWhile (!isExponent ·)
  let exponent := rest.dropWhile (!isExponent ·)
  let exponentFits : Bool :=
    match exponent with
    | [] => true
    | _ :: digits => (groupedDigits? isAsciiDigit (unsigned digits).2).isSome
  let mantissaFits : Bool :=
    match splitFirst '.' mantissa with
    | some (whole, fraction) =>
      (decimalDigits? whole).isSome && (groupedDigits? isAsciiDigit fraction).isSome
    | none => !exponent.isEmpty && (decimalDigits? mantissa).isSome
  if rest = "inf".toList ∨ rest = "nan".toList ∨ (mantissaFits ∧ exponentFits) then
    some (.decimal (String.ofList cs))
  else none

/-! ## Dates -/

/-- The number that exactly `count` digits stand for. -/
def fixedNumber? (count : Nat) (cs : List Char) : Option (Nat × List Char) :=
  let digits := cs.take count
  if digits.length = count ∧ digits.all isAsciiDigit then
    some (Json.digitsValue digits, cs.drop count)
  else none

/-- The number of days of a month. -/
def daysIn (year month : Nat) : Nat :=
  if month = 2 then
    if year % 4 = 0 ∧ (year % 100 ≠ 0 ∨ year % 400 = 0) then 29 else 28
  else if [4, 6, 9, 11].contains month then 30
  else 31

/-- The text behind a date. -/
def date? (cs : List Char) : Option (List Char) := do
  let (year, rest) ← fixedNumber? 4 cs
  let rest ← dropText? ['-'] rest
  let (month, rest) ← fixedNumber? 2 rest
  let rest ← dropText? ['-'] rest
  let (day, rest) ← fixedNumber? 2 rest
  if 1 ≤ month ∧ month ≤ 12 ∧ 1 ≤ day ∧ day ≤ daysIn year month then some rest else none

/-- The text behind the seconds of a time, which may be left out. -/
def seconds? : List Char → Option (List Char)
  | ':' :: rest => do
    let (second, rest) ← fixedNumber? 2 rest
    if second > 60 then none
    else
      match rest with
      | '.' :: fraction => (Json.digits? fraction).map (·.2)
      | _ => some rest
  | cs => some cs

/-- The text behind a time of day. -/
def time? (cs : List Char) : Option (List Char) := do
  let (hour, rest) ← fixedNumber? 2 cs
  let rest ← dropText? [':'] rest
  let (minute, rest) ← fixedNumber? 2 rest
  if hour > 23 ∨ minute > 59 then none else seconds? rest

/-- Whether a text is an offset from universal time, or nothing. -/
def isZone : List Char → Bool
  | [] => true
  | ['Z'] => true
  | ['z'] => true
  | c :: rest =>
    (c == '+' || c == '-') &&
      match fixedNumber? 2 rest with
      | some (hour, ':' :: rest) =>
        match fixedNumber? 2 rest with
        | some (minute, []) => hour ≤ 23 && minute ≤ 59
        | _ => false
      | _ => false

/-- Whether a text is a date, a time or both. -/
def isMoment (cs : List Char) : Bool :=
  match date? cs with
  | some [] => true
  | some (c :: rest) =>
    (c == 'T' || c == 't' || c == ' ') &&
      match time? rest with
      | some zone => isZone zone
      | none => false
  | none =>
    match time? cs with
    | some rest => rest.isEmpty
    | none => false

/-! ## Words -/

/-- A character of a value that is written without quotes. -/
def isWordPart (c : Char) : Bool :=
  isAsciiDigit c || isAsciiLetter c || c == '_' || c == '+' || c == '-' || c == '.' || c == ':'

/-- The word at a place; a time may follow a date behind a blank. -/
def word (cs : List Char) : List Char × List Char :=
  let first := cs.takeWhile isWordPart
  match cs.dropWhile isWordPart with
  | ' ' :: rest =>
    if (date? first) == some [] && (fixedNumber? 2 rest).isSome then
      (first ++ ' ' :: rest.takeWhile isWordPart, rest.dropWhile isWordPart)
    else (first, ' ' :: rest)
  | rest => (first, rest)

/-- The value of a word. -/
def wordValue? (cs : List Char) : Option Value :=
  if cs = "true".toList then some (.bool true)
  else if cs = "false".toList then some (.bool false)
  else
    match integer? cs with
    | some value => some value
    | none =>
      match fractional? cs with
      | some value => some value
      | none => if isMoment cs then some .foreign else none

end ComponentWiring.Toml

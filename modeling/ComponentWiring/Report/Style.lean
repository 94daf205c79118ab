/-!
Colours on a terminal. A painted text stands between the sequence that turns its style on and the
one that turns all styles off; where the text itself turns them off, its own style comes back on.
-/

namespace ComponentWiring

/-- A style, by the codes that turn it on. -/
structure Style where
  codes : String
  deriving DecidableEq, Repr, Inhabited

namespace Style

/-- Faint text. -/
def dimmed : Style := ⟨"2"⟩

/-- Green text. -/
def green : Style := ⟨"32"⟩

/-- Yellow text. -/
def yellow : Style := ⟨"33"⟩

/-- Cyan text. -/
def cyan : Style := ⟨"36"⟩

/-- Bold red text. -/
def boldRed : Style := ⟨"1;31"⟩

/-- Bold yellow text. -/
def boldYellow : Style := ⟨"1;33"⟩

/-- Bold blue text. -/
def boldBlue : Style := ⟨"1;34"⟩

/-- The sequence that turns a style on. -/
def opening (style : Style) : String :=
  "\x1b[" ++ style.codes ++ "m"

/-- The sequence that turns all styles off. -/
def closing : String :=
  "\x1b[0m"

/-- The text with a style turned on again wherever the text turns it off. -/
def restored (opening : List Char) : List Char → List Char
  | '\x1b' :: '[' :: '0' :: 'm' :: rest =>
    '\x1b' :: '[' :: '0' :: 'm' :: opening ++ restored opening rest
  | c :: rest => c :: restored opening rest
  | [] => []

/-- The text in a style, or plain where no colours are wanted. -/
def paint (style : Style) (color : Bool) (s : String) : String :=
  if color then
    style.opening ++ String.ofList (restored style.opening.toList s.toList) ++ closing
  else s

end Style

end ComponentWiring

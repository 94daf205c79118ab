import ComponentWiring.Text.Position

/-!
All places where something can be read. A *reader* sees the character in front of it and the text
that follows; where it succeeds it says what it read and which text it left. `occurrences` tries a
reader at every place from left to right, and goes on behind what was read, so that no two
occurrences overlap.
-/

namespace ComponentWiring.Text

/-- Reads something at a place, given the character before the place, if any. -/
abbrev ReaderAt (α : Type) := Option Char → List Char → Option (α × List Char)

/-- Something read from a text: the value, the byte offset of its end, and the text behind it. -/
structure Occurrence (α : Type) where
  value : α
  stop : Nat
  rest : List Char

/-- The occurrences from a place on. `skip` characters still belong to the last one. -/
def occurrencesFrom {α : Type} (reader : ReaderAt α) :
    (skip : Nat) → (offset : Nat) → (previous : Option Char) → List Char → List (Occurrence α)
  | _, _, _, [] => []
  | skip + 1, offset, _, c :: rest =>
    occurrencesFrom reader skip (offset + c.utf8Size) (some c) rest
  | 0, offset, previous, c :: rest =>
    match reader previous (c :: rest) with
    | some (value, left) =>
      let taken := (c :: rest).length - left.length
      ⟨value, offset + byteLength ((c :: rest).take taken), left⟩ ::
        occurrencesFrom reader (taken - 1) (offset + c.utf8Size) (some c) rest
    | none => occurrencesFrom reader 0 (offset + c.utf8Size) (some c) rest

/-- The occurrences of a reader in a whole text, from left to right and without overlap. -/
def occurrences {α : Type} (reader : ReaderAt α) (cs : List Char) : List (Occurrence α) :=
  occurrencesFrom reader 0 0 none cs

/-- Whether a reader succeeds anywhere in the text. -/
def occurs {α : Type} (reader : ReaderAt α) (cs : List Char) : Bool :=
  !(occurrences reader cs).isEmpty

/-- What a step reads when it is repeated as often as it succeeds, at most `fuel` times, and the
text that is left. -/
def repeatReader {α : Type} (step : List Char → Option (α × List Char)) :
    (fuel : Nat) → List Char → List α × List Char
  | 0, cs => ([], cs)
  | fuel + 1, cs =>
    match step cs with
    | none => ([], cs)
    | some (value, rest) =>
      let (values, left) := repeatReader step fuel rest
      (value :: values, left)

/-- What a step that takes at least one character reads when it is repeated as often as it
succeeds. -/
def readAll {α : Type} (step : List Char → Option (α × List Char)) (cs : List Char) :
    List α × List Char :=
  repeatReader step cs.length cs

end ComponentWiring.Text

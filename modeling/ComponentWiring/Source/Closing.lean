import ComponentWiring.Source.Literal
import ComponentWiring.Text.Position

/-!
Matching delimiters. Reading on from an opening delimiter, each further one goes one level deeper
and each closing one a level back; the delimiter that comes back to the start closes the first.
Delimiters inside literals do not count.
-/

namespace ComponentWiring.Source

/-- The text before and behind the closing delimiter that ends `depth` levels. A closing delimiter
at level zero or one is the one looked for. -/
def closingFrom (openMark closeMark : Char) :
    (depth : Nat) → LiteralState → List Char → Option (List Char × List Char)
  | _, _, [] => none
  | depth, .code, c :: rest =>
    if isQuote c then
      (closingFrom openMark closeMark depth (.inside c) rest).map fun (a, b) => (c :: a, b)
    else if c = openMark then
      (closingFrom openMark closeMark (depth + 1) .code rest).map fun (a, b) => (c :: a, b)
    else if c = closeMark then
      if depth ≤ 1 then some ([], rest)
      else (closingFrom openMark closeMark (depth - 1) .code rest).map fun (a, b) => (c :: a, b)
    else
      (closingFrom openMark closeMark depth .code rest).map fun (a, b) => (c :: a, b)
  | depth, literal, c :: rest =>
    (closingFrom openMark closeMark depth (literal.step c) rest).map fun (a, b) => (c :: a, b)

/-- For a text that starts with an opening delimiter: what stands between it and its closing one,
and what follows that. -/
def enclosed? (openMark closeMark : Char) (cs : List Char) : Option (List Char × List Char) :=
  (closingFrom openMark closeMark 0 .code cs).map fun (before, after) => (before.drop 1, after)

/-- The byte offset of the delimiter that closes the one at the byte `start`. -/
def closingOffset? (cs : List Char) (start : Nat) (openMark closeMark : Char) : Option Nat := do
  let (_, rest) ← Text.splitAtByte start cs
  let (before, _) ← closingFrom openMark closeMark 0 .code rest
  return start + Text.byteLength before

/-- Nothing is lost around a closing delimiter. -/
theorem closingFrom_eq_some {openMark closeMark : Char} {depth : Nat} {literal : LiteralState}
    {cs before after : List Char}
    (h : closingFrom openMark closeMark depth literal cs = some (before, after)) :
    cs = before ++ closeMark :: after := by
  fun_induction closingFrom openMark closeMark depth literal cs generalizing before <;>
    simp_all [Option.map_eq_some_iff]
  all_goals (obtain ⟨a, ha, rfl⟩ := h; simp_all)

end ComponentWiring.Source

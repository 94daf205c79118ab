/-!
String and character literals in source text. Every reader that has to leave literals alone carries
a `LiteralState` along: a quote opens a literal, the same quote closes it again, and a backslash
inside takes the next character with it.
-/

namespace ComponentWiring.Source

/-- Where a place stands with respect to literals. -/
inductive LiteralState
  /-- Outside any literal. -/
  | code
  /-- Inside the literal that `quote` opened. -/
  | inside (quote : Char)
  /-- Inside the literal that `quote` opened, behind a backslash. -/
  | escaped (quote : Char)
  deriving DecidableEq, Repr, Inhabited

/-- The two characters that open a literal. -/
def isQuote (c : Char) : Bool :=
  c == '"' || c == '\''

/-- A class of characters without the quotes. -/
theorem isQuote_of_class {p : Char → Bool} (hp : "\"'".toList.any p = false) {c : Char}
    (hc : p c = true) : isQuote c = false := by
  rw [List.any_eq_false] at hp
  cases hquote : isQuote c with
  | false => rfl
  | true =>
    simp only [isQuote, Bool.or_eq_true, beq_iff_eq] at hquote
    rcases hquote with rfl | rfl <;> exact absurd hc (hp _ (by decide))

namespace LiteralState

/-- The state behind one more character. -/
def step : LiteralState → Char → LiteralState
  | code, c => if isQuote c then inside c else code
  | inside quote, c =>
    if c = '\\' then escaped quote else if c = quote then code else inside quote
  | escaped quote, _ => inside quote

/-- The state behind a text. -/
def run (state : LiteralState) (cs : List Char) : LiteralState :=
  cs.foldl step state

@[simp] theorem run_nil (state : LiteralState) : state.run [] = state := rfl

@[simp] theorem run_cons (state : LiteralState) (c : Char) (cs : List Char) :
    state.run (c :: cs) = (state.step c).run cs := rfl

theorem run_append (state : LiteralState) (as bs : List Char) :
    state.run (as ++ bs) = (state.run as).run bs :=
  List.foldl_append

@[simp] theorem step_code_of_not_isQuote {c : Char} (h : isQuote c = false) :
    code.step c = code := by
  simp [step, h]

end LiteralState

end ComponentWiring.Source

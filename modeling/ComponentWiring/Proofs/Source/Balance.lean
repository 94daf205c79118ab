import Mathlib.Data.List.Count
import ComponentWiring.Proofs.Text.Cutting
import ComponentWiring.Source.Closing
import ComponentWiring.Source.Fragment

/-!
Balanced text. `Opened` keeps the open brackets of a text on a stack, so that each closing bracket
has to match the innermost open one; literals are left alone, and a comma may only stand inside
brackets. Angle brackets take part or not, since in a type they are brackets and in an expression
they are comparisons.

The readers of lists and of constructors count instead: one number for all brackets but angle
brackets, one for angle brackets, and one for parentheses when looking for the closing one. The laws
here say what these numbers are along a balanced text.
-/

namespace ComponentWiring.Source

open Text

/-! ## Open brackets -/

/-- What is open at a place of a text: its brackets, the innermost first, and possibly a literal. -/
structure Opened where
  brackets : List Char := []
  literal : LiteralState := .code
  afterDash : Bool := false
  deriving DecidableEq, Repr

/-- Whether a character closes a bracket. -/
def matchesBracket (opening c : Char) : Bool :=
  (opening == '(' && c == ')') || (opening == '[' && c == ']') || (opening == '{' && c == '}') ||
    (opening == '<' && c == '>')

/-- A bracket that opens, angle brackets counted or not. -/
def isOpening (angles : Bool) (c : Char) : Bool :=
  c == '(' || c == '[' || c == '{' || (angles && c == '<')

/-- A bracket that closes, angle brackets counted or not; the head of an arrow closes nothing. -/
def isClosing (angles afterDash : Bool) (c : Char) : Bool :=
  c == ')' || c == ']' || c == '}' || (angles && c == '>' && !afterDash)

namespace Opened

/-- What is open behind one more character; `none` if a bracket does not match or a comma stands
outside all brackets. -/
def step? (angles : Bool) (s : Opened) (c : Char) : Option Opened :=
  let moved : Opened := { s with literal := s.literal.step c, afterDash := c == '-' }
  if s.literal ≠ .code then some moved
  else if isOpening angles c then some { moved with brackets := c :: s.brackets }
  else if isClosing angles s.afterDash c then
    match s.brackets with
    | [] => none
    | opening :: outer =>
      if matchesBracket opening c then some { moved with brackets := outer } else none
  else if c = ',' ∧ s.brackets = [] then none
  else some moved

/-- What is open behind a text. -/
def run? (angles : Bool) : Opened → List Char → Option Opened
  | s, [] => some s
  | s, c :: cs => (s.step? angles c).bind fun s => run? angles s cs

/-- The number of open brackets that are no angle brackets. -/
def depth (s : Opened) : Nat :=
  s.brackets.countP (· != '<')

/-- The number of open angle brackets. -/
def angles (s : Opened) : Nat :=
  s.brackets.count '<'

/-- The number of open parentheses. -/
def parentheses (s : Opened) : Nat :=
  s.brackets.count '('

end Opened

/-- A text that closes every bracket and every literal, with commas only inside brackets. -/
def IsBalanced (angles : Bool) (cs : List Char) : Prop :=
  ∃ s, Opened.run? angles {} cs = some s ∧ s.brackets = [] ∧ s.literal = .code

instance (angles : Bool) (cs : List Char) : Decidable (IsBalanced angles cs) :=
  match h : Opened.run? angles {} cs with
  | none => .isFalse fun ⟨s, hs, _⟩ => by simp [h] at hs
  | some s =>
    if hs : s.brackets = [] ∧ s.literal = .code then .isTrue ⟨s, h, hs⟩
    else .isFalse fun ⟨t, ht, hclosed⟩ => hs (Option.some.inj (h.symm.trans ht) ▸ hclosed)

/-! ## What a step does -/

namespace Opened

variable {angles : Bool} {s s' : Opened} {c : Char}

/-- A step inside a literal, at an opening bracket, at a closing bracket that matches, or at any
other character but a comma outside all brackets. -/
theorem step?_cases (h : s.step? angles c = some s') :
    (s'.literal = s.literal.step c ∧ s'.afterDash = (c == '-')) ∧
    ((s.literal ≠ .code ∧ s'.brackets = s.brackets) ∨
    (s.literal = .code ∧ isOpening angles c = true ∧ s'.brackets = c :: s.brackets) ∨
    (s.literal = .code ∧ isClosing angles s.afterDash c = true ∧
      ∃ opening, s.brackets = opening :: s'.brackets ∧ matchesBracket opening c = true) ∨
    (s.literal = .code ∧ isOpening angles c = false ∧ isClosing angles s.afterDash c = false ∧
      (c = ',' → s.brackets ≠ []) ∧ s'.brackets = s.brackets)) := by
  unfold step? at h
  by_cases hcode : s.literal = .code
  · rw [if_neg (by simp [hcode])] at h
    cases hopen : isOpening angles c with
    | true =>
      rw [if_pos hopen] at h
      cases h
      exact ⟨⟨rfl, rfl⟩, .inr (.inl ⟨hcode, rfl, rfl⟩)⟩
    | false =>
      rw [if_neg (by simp [hopen])] at h
      cases hclose : isClosing angles s.afterDash c with
      | true =>
        rw [if_pos hclose] at h
        split at h
        · cases h
        · next opening outer hbrackets =>
          split at h
          · next hmatch =>
            cases h
            exact ⟨⟨rfl, rfl⟩, .inr (.inr (.inl ⟨hcode, rfl, opening, hbrackets, hmatch⟩))⟩
          · cases h
      | false =>
        rw [if_neg (by simp [hclose])] at h
        split at h
        · cases h
        · next hcomma =>
          cases h
          exact ⟨⟨rfl, rfl⟩,
            .inr (.inr (.inr ⟨hcode, rfl, rfl, fun hc hnil => hcomma ⟨hc, hnil⟩, rfl⟩))⟩
  · rw [if_pos hcode] at h
    cases h
    exact ⟨⟨rfl, rfl⟩, .inl ⟨hcode, rfl⟩⟩

/-- Inside a literal no bracket opens or closes. -/
theorem brackets_of_literal (h : s.step? angles c = some s') (hliteral : s.literal ≠ .code) :
    s'.brackets = s.brackets := by
  obtain ⟨-, ⟨-, heq⟩ | ⟨hcode, -⟩ | ⟨hcode, -⟩ | ⟨hcode, -⟩⟩ := step?_cases h
  · exact heq
  · exact absurd hcode hliteral
  · exact absurd hcode hliteral
  · exact absurd hcode hliteral

/-- Outside literals a bracket opens, or the innermost one closes, or nothing happens to brackets;
mark by mark. -/
theorem brackets_of_code (h : s.step? angles c = some s') (hcode : s.literal = .code) :
    ((c = '(' ∨ c = '[' ∨ c = '{' ∨ angles = true ∧ c = '<') ∧ s'.brackets = c :: s.brackets) ∨
    (∃ opening, s.brackets = opening :: s'.brackets ∧
      (opening = '(' ∧ c = ')' ∨ opening = '[' ∧ c = ']' ∨ opening = '{' ∧ c = '}' ∨
        angles = true ∧ s.afterDash = false ∧ opening = '<' ∧ c = '>')) ∨
    ((c ≠ '(' ∧ c ≠ '[' ∧ c ≠ '{') ∧ (c ≠ ')' ∧ c ≠ ']' ∧ c ≠ '}') ∧
      (angles = true → c ≠ '<' ∧ (c = '>' → s.afterDash = true)) ∧ s'.brackets = s.brackets) := by
  obtain ⟨-, ⟨hliteral, -⟩ | ⟨-, hopen, heq⟩ | ⟨-, hclose, opening, heq, hmatch⟩ |
    ⟨-, hopen, hclose, -, heq⟩⟩ := step?_cases h
  · exact absurd hcode hliteral
  · refine .inl ⟨?_, heq⟩
    simpa [isOpening, or_assoc] using hopen
  · refine .inr (.inl ⟨opening, heq, ?_⟩)
    simp only [matchesBracket, Bool.or_eq_true, Bool.and_eq_true, beq_iff_eq] at hmatch
    rcases hmatch with ((hround | hsquare) | hcurly) | ⟨rfl, rfl⟩
    · exact .inl hround
    · exact .inr (.inl hsquare)
    · exact .inr (.inr (.inl hcurly))
    · have hangle : angles = true ∧ s.afterDash = false := by simpa [isClosing] using hclose
      exact .inr (.inr (.inr ⟨hangle.1, hangle.2, rfl, rfl⟩))
  · simp only [isOpening, Bool.or_eq_false_iff, beq_eq_false_iff_ne, Bool.and_eq_false_iff] at hopen
    simp only [isClosing, Bool.or_eq_false_iff, beq_eq_false_iff_ne, Bool.and_eq_false_iff] at hclose
    grind

/-- Every open bracket is counted once. -/
theorem length_brackets (s : Opened) : s.brackets.length = s.depth + s.angles := by
  rw [List.length_eq_countP_add_countP (· != '<'), depth, angles, List.count]
  congr 2
  funext c
  by_cases hc : c = '<' <;> simp [hc]

/-- Where angle brackets do not take part, none is open. -/
theorem angles_step_false (h : s.step? false c = some s') (hs : s.angles = 0) : s'.angles = 0 := by
  obtain ⟨-, ⟨-, heq⟩ | ⟨-, hopen, heq⟩ | ⟨-, -, opening, heq, -⟩ | ⟨-, -, -, -, heq⟩⟩ :=
    step?_cases h
  · rwa [angles, heq]
  · rw [angles, heq, List.count_cons_of_ne]
    · exact hs
    · rintro rfl
      simp [isOpening] at hopen
  · rw [angles, heq, List.count_eq_zero] at hs
    rw [angles, List.count_eq_zero]
    exact fun hmem => hs (List.mem_cons_of_mem _ hmem)
  · rwa [angles, heq]

theorem run?_cons (h : run? angles s (c :: cs) = some s') :
    ∃ t, s.step? angles c = some t ∧ run? angles t cs = some s' :=
  Option.bind_eq_some_iff.mp h

theorem run?_append {as bs : List Char} :
    run? angles s (as ++ bs) = (run? angles s as).bind fun t => run? angles t bs := by
  induction as generalizing s with
  | nil => rfl
  | cons a as ih =>
    simp only [List.cons_append, run?]
    cases s.step? angles a with
    | none => rfl
    | some t => exact ih

theorem run?_literal (h : run? angles s cs = some s') : s'.literal = s.literal.run cs := by
  induction cs generalizing s with
  | nil =>
    cases h
    rfl
  | cons c cs ih =>
    obtain ⟨t, hstep, hrun⟩ := run?_cons h
    obtain ⟨⟨hliteral, -⟩, -⟩ := step?_cases hstep
    rw [ih hrun, hliteral, LiteralState.run_cons]

theorem run?_afterDash_eq (h : run? angles s cs = some s') (hcs : '-' ∉ cs)
    (hs : s.afterDash = false) : s'.afterDash = false := by
  induction cs generalizing s with
  | nil =>
    cases h
    exact hs
  | cons c cs ih =>
    obtain ⟨t, hstep, hrun⟩ := run?_cons h
    obtain ⟨⟨-, hdash⟩, -⟩ := step?_cases hstep
    rw [List.mem_cons, not_or] at hcs
    refine ih hrun hcs.2 ?_
    rw [hdash, beq_eq_false_iff_ne]
    exact Ne.symm hcs.1

/-- Brackets that are open around a text do not matter to it. -/
theorem step?_around (h : s.step? angles c = some s') (around : List Char) :
    step? angles { s with brackets := s.brackets ++ around } c =
      some { s' with brackets := s'.brackets ++ around } := by
  unfold step? at h ⊢
  by_cases hcode : s.literal = .code
  · rw [if_neg (by simp [hcode])] at h ⊢
    split_ifs at h ⊢ with hopen hclose haround hcomma
    · cases h
      rfl
    · cases hbrackets : s.brackets with
      | nil => simp [hbrackets] at h
      | cons opening outer =>
        simp only [hbrackets, List.cons_append] at h ⊢
        split_ifs at h ⊢
        cases h
        rfl
    -- With more brackets around it, a comma stands inside brackets all the more.
    · exact absurd ⟨haround.1, (List.append_eq_nil_iff.mp haround.2).1⟩ hcomma
    · cases h
      rfl
  · rw [if_pos hcode] at h ⊢
    cases h
    rfl

theorem run?_around (h : run? angles s cs = some s') (around : List Char) :
    run? angles { s with brackets := s.brackets ++ around } cs =
      some { s' with brackets := s'.brackets ++ around } := by
  induction cs generalizing s with
  | nil =>
    cases h
    rfl
  | cons c cs ih =>
    obtain ⟨t, hstep, hrun⟩ := run?_cons h
    rw [run?, step?_around hstep, Option.bind_some]
    exact ih hrun

end Opened

/-! ## The numbers that the list reader keeps -/

namespace Nesting

/-- The nesting behind a text. -/
def run (track : Bool) (n : Nesting) (cs : List Char) : Nesting :=
  cs.foldl (step track) n

@[simp] theorem run_nil (track : Bool) (n : Nesting) : n.run track [] = n := rfl

@[simp] theorem run_cons (track : Bool) (n : Nesting) (c : Char) (cs : List Char) :
    n.run track (c :: cs) = (n.step track c).run track cs := rfl

theorem run_append (track : Bool) (n : Nesting) (as bs : List Char) :
    n.run track (as ++ bs) = (n.run track as).run track bs :=
  List.foldl_append

/-- No comma in the text separates two parts. -/
def Keeps (track : Bool) : Nesting → List Char → Prop
  | _, [] => True
  | n, c :: cs => n.separates c = false ∧ Keeps track (n.step track c) cs

theorem keeps_append {track : Bool} {n : Nesting} {as bs : List Char} :
    n.Keeps track (as ++ bs) ↔ n.Keeps track as ∧ (n.run track as).Keeps track bs := by
  induction as generalizing n with
  | nil => simp [Keeps]
  | cons a as ih => simp only [List.cons_append, Keeps, ih, run_cons, and_assoc]

/-- The numbers at a place of a text: the depth, the literal and the dash are those of the open
brackets. Angle brackets are left out, since they may not be counted. -/
structure Follows (n : Nesting) (s : Opened) : Prop where
  depth : n.depth = s.depth
  literal : n.literal = s.literal
  afterDash : n.afterDash = s.afterDash

variable {angles track : Bool} {n : Nesting} {s s' : Opened} {c : Char} {cs : List Char}

@[simp] theorem step_literal : (n.step track c).literal = n.literal.step c := by
  unfold Nesting.step
  split_ifs <;> rfl

@[simp] theorem step_afterDash : (n.step track c).afterDash = (c == '-') := by
  unfold Nesting.step
  split_ifs <;> rfl

/-- Only brackets other than angle brackets change the depth. -/
theorem step_depth : (n.step track c).depth =
    if n.literal ≠ .code then n.depth
    else if c = '(' ∨ c = '[' ∨ c = '{' then n.depth + 1
    else if c = ')' ∨ c = ']' ∨ c = '}' then n.depth - 1
    else n.depth := by
  unfold Nesting.step
  split_ifs <;> rfl

/-- Only angle brackets change the number of open angle brackets. -/
theorem step_angles : (n.step true c).angles =
    if n.literal ≠ .code then n.angles
    else if c = '<' then n.angles + 1
    else if c = '>' ∧ ¬n.afterDash then n.angles - 1
    else n.angles := by
  unfold Nesting.step
  split_ifs <;> simp_all

/-- Nothing is open at the place. -/
structure Closed (n : Nesting) : Prop where
  depth : n.depth = 0
  angles : n.angles = 0
  literal : n.literal = .code

theorem Closed.eq (h : n.Closed) : n = { afterDash := n.afterDash } := by
  obtain ⟨depth, angles, literal, afterDash⟩ := n
  obtain ⟨rfl, rfl, rfl⟩ := h
  rfl

/-- What separates two parts is a comma where nothing is open. -/
theorem separates_iff : n.separates c = true ↔ c = ',' ∧ n.Closed := by
  simp only [separates, Bool.and_eq_true, beq_iff_eq]
  constructor
  · intro h
    exact ⟨h.1.1.1, h.1.1.2, h.1.2, h.2⟩
  · intro ⟨hcomma, h⟩
    exact ⟨⟨⟨hcomma, h.depth⟩, h.angles⟩, h.literal⟩

/-- A blank changes the literal at most. -/
theorem step_of_blank (hc : isBlank c = true) :
    n.step track c = { n with literal := n.literal.step c, afterDash := false } := by
  have hdash : (c == '-') = false := beq_eq_false_iff_ne.mpr (ne_of_isBlank hc rfl)
  unfold Nesting.step
  rw [hdash]
  split
  · rfl
  · rw [if_neg, if_neg, if_neg, if_neg]
    · exact fun h => ne_of_isBlank hc rfl h.2.1
    · exact fun h => ne_of_isBlank hc rfl h.2
    · intro h
      rcases h with h | h | h <;> exact ne_of_isBlank hc rfl h
    · intro h
      rcases h with h | h | h <;> exact ne_of_isBlank hc rfl h

/-- Outside literals it changes nothing. -/
theorem step_of_blank_of_code (hc : isBlank c = true) (hcode : n.literal = .code) :
    n.step track c = { n with afterDash := false } := by
  have hquote : isQuote c = false := isQuote_of_class (p := isBlank) rfl hc
  rw [step_of_blank hc, hcode, LiteralState.step_code_of_not_isQuote hquote, ← hcode]

/-- Blanks in front of a text leave the scan where it starts. -/
theorem run_of_blank (h : isAllBlank cs = true) : Nesting.run track {} cs = {} := by
  induction cs with
  | nil => rfl
  | cons c cs ih =>
    rw [isAllBlank_cons] at h
    rw [run_cons, step_of_blank_of_code h.1 rfl]
    exact ih h.2

theorem run_blind_angles : (n.run false cs).angles = n.angles := by
  induction cs generalizing n with
  | nil => rfl
  | cons c cs ih =>
    rw [run_cons, ih]
    unfold Nesting.step
    split_ifs <;> simp_all

/-- The depth and the literal of the numbers are followed whether angle brackets are counted or not,
by the numbers as well as by the brackets. -/
theorem Follows.step (hn : n.Follows s) (h : s.step? angles c = some s') :
    (n.step track c).Follows s' := by
  obtain ⟨hdepth, hliteral, -⟩ := hn
  obtain ⟨⟨hstep, hdash⟩, -⟩ := Opened.step?_cases h
  refine ⟨?_, by rw [step_literal, hliteral, hstep], by rw [step_afterDash, hdash]⟩
  rw [step_depth, hliteral, hdepth, Opened.depth, Opened.depth]
  by_cases hcode : s.literal = .code
  · rw [if_neg (not_not.mpr hcode)]
    rcases Opened.brackets_of_code h hcode with ⟨hopen, heq⟩ | ⟨opening, heq, hmatch⟩ |
      ⟨hopen, hclose, -, heq⟩
    · rw [heq]
      rcases hopen with rfl | rfl | rfl | ⟨-, rfl⟩ <;> simp
    · rw [heq]
      rcases hmatch with ⟨rfl, rfl⟩ | ⟨rfl, rfl⟩ | ⟨rfl, rfl⟩ | ⟨-, -, rfl, rfl⟩ <;> simp
    · simp [heq, hopen, hclose]
  · rw [if_pos hcode, Opened.brackets_of_literal h hcode]

/-- Outside all brackets only the number of open angle brackets is left. -/
theorem Follows.eq {dash : Bool} (hn : n.Follows { afterDash := dash }) :
    n = { angles := n.angles, afterDash := dash } := by
  obtain ⟨hdepth, hliteral, hdash⟩ := hn
  cases n
  simp_all [Opened.depth]

/-- Where angle brackets are brackets, their number is followed too, up to those that are open
around the text. -/
theorem Follows.angles_step (hn : n.Follows s) (h : s.step? true c = some s') {around : Nat}
    (hangles : n.angles = around + s.angles) : (n.step true c).angles = around + s'.angles := by
  obtain ⟨-, hliteral, hdash⟩ := hn
  rw [step_angles, hliteral, hdash, hangles, Opened.angles, Opened.angles]
  by_cases hcode : s.literal = .code
  · rw [if_neg (not_not.mpr hcode)]
    rcases Opened.brackets_of_code h hcode with ⟨hopen, heq⟩ | ⟨opening, heq, hmatch⟩ |
      ⟨-, -, hangle, heq⟩
    · rw [heq]
      rcases hopen with rfl | rfl | rfl | ⟨-, rfl⟩ <;> simp [Nat.add_assoc]
    · rw [heq]
      rcases hmatch with ⟨rfl, rfl⟩ | ⟨rfl, rfl⟩ | ⟨rfl, rfl⟩ | ⟨-, hdash, rfl, rfl⟩
      · simp
      · simp
      · simp
      · simp [hdash]
    · obtain ⟨hopen, hclose⟩ := hangle rfl
      rw [heq, if_neg hopen, if_neg fun hhead => hhead.2 (hclose hhead.1)]
  · rw [if_pos hcode, Opened.brackets_of_literal h hcode]

/-- Inside brackets no comma separates, and outside there is none. -/
theorem Follows.separates_eq_false (hn : n.Follows s) (h : s.step? angles c = some s')
    (hangles : s.angles ≤ n.angles) : n.separates c = false := by
  obtain ⟨hdepth, hliteral, -⟩ := hn
  cases hsep : n.separates c with
  | false => rfl
  | true =>
    obtain ⟨rfl, hzero, hnone, hcode⟩ := separates_iff.mp hsep
    have hnil : s.brackets = [] := by
      have hcount := s.length_brackets
      rw [← List.length_eq_zero_iff]
      omega
    simp [Opened.step?, ← hliteral, hcode, hnil, isOpening, isClosing] at h

theorem Follows.run (hn : n.Follows s) (h : Opened.run? angles s cs = some s') :
    (n.run track cs).Follows s' := by
  induction cs generalizing n s with
  | nil =>
    cases h
    exact hn
  | cons c cs ih =>
    obtain ⟨t, hstep, hrun⟩ := Opened.run?_cons h
    exact ih (hn.step hstep) hrun

/-- A text with angle brackets keeps together, and opens as many of them as it closes. -/
theorem Follows.run_angles (hn : n.Follows s) (h : Opened.run? true s cs = some s') (around : Nat)
    (hangles : n.angles = around + s.angles) :
    n.Keeps true cs ∧ (n.run true cs).angles = around + s'.angles := by
  induction cs generalizing n s with
  | nil =>
    cases h
    exact ⟨trivial, hangles⟩
  | cons c cs ih =>
    obtain ⟨t, hstep, hrun⟩ := Opened.run?_cons h
    obtain ⟨hkeeps, hafter⟩ := ih (hn.step hstep) hrun (hn.angles_step hstep hangles)
    exact ⟨⟨hn.separates_eq_false hstep (hangles ▸ Nat.le_add_left _ _), hkeeps⟩, hafter⟩

/-- A text without angle brackets keeps together, whatever its comparisons do to the numbers. -/
theorem Follows.keeps (hn : n.Follows s) (h : Opened.run? false s cs = some s')
    (hangles : s.angles = 0) : n.Keeps track cs := by
  induction cs generalizing n s with
  | nil => exact trivial
  | cons c cs ih =>
    obtain ⟨t, hstep, hrun⟩ := Opened.run?_cons h
    exact ⟨hn.separates_eq_false hstep (by omega),
      ih (hn.step hstep) hrun (Opened.angles_step_false hstep hangles)⟩

end Nesting

/-! ## Balanced texts -/

/-- A character that is neither a bracket nor a quote nor a comma. -/
def isPlain (c : Char) : Bool :=
  !(isQuote c || isOpening true c || isClosing true false c || c == ',')

/-- A class of characters without brackets, quotes and the comma. -/
theorem isPlain_of_class {p : Char → Bool} (hp : "\"'([{<)]}>,".toList.any p = false) {c : Char}
    (hc : p c = true) : isPlain c = true := by
  cases hplain : isPlain c with
  | true => rfl
  | false =>
    simp only [isPlain, isQuote, isOpening, isClosing, Bool.not_eq_false', Bool.or_eq_true,
      Bool.and_eq_true, beq_iff_eq] at hplain
    have hmem : c ∈ "\"'([{<)]}>,".toList := by
      rcases hplain with (((rfl | rfl) | ((rfl | rfl) | rfl) | ⟨-, rfl⟩) |
        ((rfl | rfl) | rfl) | ⟨⟨-, rfl⟩, -⟩) | rfl <;> decide
    rw [List.any_eq_false] at hp
    exact absurd hc (hp c hmem)

namespace IsBalanced

variable {angles track : Bool} {as bs cs : List Char}

theorem exists_run? (h : IsBalanced angles cs) :
    ∃ dash, Opened.run? angles {} cs = some { afterDash := dash } := by
  obtain ⟨⟨brackets, literal, dash⟩, hrun, rfl, rfl⟩ := h
  exact ⟨dash, hrun⟩

theorem nil : IsBalanced angles [] :=
  ⟨{}, rfl, rfl, rfl⟩

/-- A balanced text closes its literals. -/
theorem closes (h : IsBalanced angles cs) : LiteralState.code.run cs = .code := by
  obtain ⟨dash, hrun⟩ := h.exists_run?
  exact (Opened.run?_literal hrun).symm

/-- A dash in front of a text does not matter to it, since it starts with no closing bracket. -/
theorem run?_afterDash {c : Char} (h : IsBalanced angles (c :: cs)) (dash : Bool) :
    Opened.run? angles { afterDash := dash } (c :: cs) = Opened.run? angles {} (c :: cs) := by
  obtain ⟨s, hrun, -⟩ := h
  obtain ⟨t, hstep, -⟩ := Opened.run?_cons hrun
  have hclose : isClosing angles false c = false := by
    obtain ⟨-, ⟨hcode, -⟩ | ⟨-, hopen, -⟩ | ⟨-, -, opening, heq, -⟩ | ⟨-, -, hclose, -⟩⟩ :=
      Opened.step?_cases hstep
    · exact absurd rfl hcode
    · simp only [isOpening, Bool.or_eq_true, Bool.and_eq_true, beq_iff_eq] at hopen
      rcases hopen with ((rfl | rfl) | rfl) | ⟨-, rfl⟩ <;> simp [isClosing]
    · cases heq
    · exact hclose
  have hclose' : isClosing angles dash c = false := by
    simp only [isClosing, Bool.or_eq_false_iff, Bool.and_eq_false_iff] at hclose ⊢
    exact ⟨hclose.1, hclose.2.imp id (by simp)⟩
  simp only [Opened.run?, Opened.step?, hclose, hclose']

theorem append (has : IsBalanced angles as) (hbs : IsBalanced angles bs) :
    IsBalanced angles (as ++ bs) := by
  obtain ⟨dash, hrun⟩ := has.exists_run?
  cases bs with
  | nil => rwa [List.append_nil]
  | cons b bs =>
    obtain ⟨s, hs, hclosed⟩ := hbs
    refine ⟨s, ?_, hclosed⟩
    rw [Opened.run?_append, hrun, Option.bind_some, run?_afterDash ⟨s, hs, hclosed⟩, hs]

theorem of_isPlain (h : cs.all isPlain = true) : IsBalanced angles cs := by
  induction cs with
  | nil => exact nil
  | cons c cs ih =>
    rw [List.all_cons, Bool.and_eq_true] at h
    show IsBalanced angles ([c] ++ cs)
    refine append ⟨{ afterDash := c == '-' }, ?_, rfl, rfl⟩ (ih h.2)
    have hc := h.1
    simp only [isPlain, isOpening, isClosing, Bool.not_eq_true', Bool.or_eq_false_iff,
      Bool.and_eq_false_iff] at hc
    simp_all [Opened.run?, Opened.step?, isOpening, isClosing]

/-- Inside brackets a balanced text leaves open what was open before it. -/
theorem run?_inside (h : IsBalanced angles cs) (hdash : '-' ∉ cs) (around : List Char) :
    Opened.run? angles { brackets := around } cs = some { brackets := around } := by
  obtain ⟨s, hrun, hbrackets, hliteral⟩ := h
  have hafter : s.afterDash = false := Opened.run?_afterDash_eq hrun hdash rfl
  have hinside := Opened.run?_around hrun around
  simp only [hbrackets, hliteral, hafter, List.nil_append] at hinside
  exact hinside

/-- Texts in angle brackets, with commas between them. -/
theorem bracketed {pieces : List (List Char)} (h : ∀ piece ∈ pieces, IsBalanced true piece)
    (hdash : ∀ piece ∈ pieces, '-' ∉ piece) :
    IsBalanced true ('<' :: (", ".toList.intercalate pieces ++ ['>'])) := by
  have hinside : Opened.run? true { brackets := ['<'] } (", ".toList.intercalate pieces) =
      some { brackets := ['<'] } := by
    induction pieces with
    | nil => rfl
    | cons piece pieces ih =>
      obtain ⟨hpiece, hpieces⟩ := List.forall_mem_cons.mp h
      obtain ⟨hnone, hnones⟩ := List.forall_mem_cons.mp hdash
      cases pieces with
      | nil => rw [List.intercalate_singleton, hpiece.run?_inside hnone]
      | cons next pieces =>
        have hcomma : Opened.run? true { brackets := ['<'] } ", ".toList =
            some { brackets := ['<'] } := by decide
        rw [List.intercalate_cons_cons, Opened.run?_append, Opened.run?_append,
          hpiece.run?_inside hnone, Option.bind_some, hcomma, Option.bind_some, ih hpieces hnones]
  refine ⟨{}, ?_, rfl, rfl⟩
  have hopen : Opened.step? true {} '<' = some { brackets := ['<'] } := by decide
  have hclose : Opened.run? true { brackets := ['<'] } ['>'] = some {} := by decide
  rw [Opened.run?, hopen, Option.bind_some, Opened.run?_append, hinside, Option.bind_some, hclose]

/-- A text with angle brackets keeps together and leaves the numbers as they were. -/
theorem run_true (h : IsBalanced true cs) (around : Nat) :
    ({ angles := around } : Nesting).Keeps true cs ∧
      ∃ dash, Nesting.run true { angles := around } cs =
        { angles := around, afterDash := dash } := by
  obtain ⟨dash, hrun⟩ := h.exists_run?
  have hfollows : Nesting.Follows { angles := around } {} := ⟨rfl, rfl, rfl⟩
  obtain ⟨hkeeps, hangles⟩ := hfollows.run_angles hrun around rfl
  refine ⟨hkeeps, dash, ?_⟩
  rw [(hfollows.run hrun).eq, hangles]
  rfl

/-- A text without angle brackets keeps together. -/
theorem run_false (h : IsBalanced false cs) (track : Bool) (around : Nat) :
    ({ angles := around } : Nesting).Keeps track cs ∧
      ∃ left dash, Nesting.run track { angles := around } cs =
        { angles := left, afterDash := dash } := by
  obtain ⟨dash, hrun⟩ := h.exists_run?
  have hfollows : Nesting.Follows { angles := around } {} := ⟨rfl, rfl, rfl⟩
  exact ⟨hfollows.keeps hrun rfl, _, dash, (hfollows.run hrun).eq⟩

/-- Where angle brackets are not counted, the numbers are as they were, whatever the text has of
them. -/
theorem run_blind (h : IsBalanced angles cs) :
    ∃ dash, Nesting.run false {} cs = { afterDash := dash } := by
  obtain ⟨dash, hrun⟩ := h.exists_run?
  have hfollows : Nesting.Follows {} {} := ⟨rfl, rfl, rfl⟩
  refine ⟨dash, ?_⟩
  rw [(hfollows.run hrun).eq, Nesting.run_blind_angles]

end IsBalanced

/-! ## Closing delimiters -/

section Searching

variable {openMark closeMark c : Char} {depth : Nat} {literal : LiteralState}

/-- The level behind a character. -/
def depthBehind (openMark closeMark : Char) (depth : Nat) (literal : LiteralState) (c : Char) :
    Nat :=
  if literal ≠ .code then depth
  else if c = openMark then depth + 1
  else if c = closeMark then depth - 1
  else depth

section Steps

variable (hmarks : isQuote openMark = false ∧ isQuote closeMark = false ∧ openMark ≠ closeMark)

include hmarks

/-- One step of the search for a closing delimiter, which stops at one of the outermost level. -/
theorem closingFrom_cons (cs : List Char) :
    closingFrom openMark closeMark depth literal (c :: cs) =
      if literal = .code ∧ c = closeMark ∧ depth ≤ 1 then some ([], cs)
      else (closingFrom openMark closeMark (depthBehind openMark closeMark depth literal c)
        (literal.step c) cs).map fun (before, after) => (c :: before, after) := by
  obtain ⟨hopen, hclose, hne⟩ := hmarks
  cases literal with
  | code =>
    cases hquote : isQuote c with
    | true =>
      have hc : c ≠ openMark ∧ c ≠ closeMark := by
        constructor <;> rintro rfl
        · exact absurd hquote (by simp [hopen])
        · exact absurd hquote (by simp [hclose])
      simp [closingFrom, depthBehind, LiteralState.step, hquote, hc]
    | false =>
      rw [LiteralState.step_code_of_not_isQuote hquote, closingFrom, if_neg (by simp [hquote])]
      by_cases hopens : c = openMark
      · simp [depthBehind, hopens, hne]
      · by_cases hcloses : c = closeMark <;> simp [depthBehind, hopens, hcloses, hne.symm]
  | inside quote =>
    rw [closingFrom, if_neg (by simp)]
    · rfl
    · exact LiteralState.noConfusion
  | escaped quote =>
    rw [closingFrom, if_neg (by simp)]
    · rfl
    · exact LiteralState.noConfusion

/-- Behind an opening delimiter the search starts on the first level. -/
theorem enclosed?_cons (cs : List Char) :
    enclosed? openMark closeMark (openMark :: cs) = closingFrom openMark closeMark 1 .code cs := by
  have hdepth : depthBehind openMark closeMark 0 .code openMark = 1 := by simp [depthBehind]
  rw [enclosed?, closingFrom_cons hmarks, if_neg fun hstop => hmarks.2.2 hstop.2.1, hdepth,
    LiteralState.step_code_of_not_isQuote hmarks.1, Option.map_map]
  exact congrFun Option.map_id _

/-- A text that the search passes by stands between the delimiters. -/
theorem enclosed?_of_passed {cs rest : List Char}
    (h : closingFrom openMark closeMark 1 .code (cs ++ closeMark :: rest) =
      (closingFrom openMark closeMark 1 .code (closeMark :: rest)).map
        fun (before, after) => (cs ++ before, after)) :
    enclosed? openMark closeMark (openMark :: (cs ++ closeMark :: rest)) = some (cs, rest) := by
  rw [enclosed?_cons hmarks, h, closingFrom_cons hmarks, if_pos ⟨rfl, rfl, Nat.le_refl 1⟩,
    Option.map_some]
  simp only [List.append_nil]

end Steps

/-- While it goes on, some delimiter is open. -/
theorem one_le_depthBehind (h : ¬(literal = .code ∧ c = closeMark ∧ depth ≤ 1))
    (hdepth : 1 ≤ depth) :
    1 ≤ depthBehind openMark closeMark depth literal c := by
  unfold depthBehind
  split_ifs with hcode hopen hclose
  · exact hdepth
  · exact Nat.le_add_left 1 depth
  · have hmore : ¬depth ≤ 1 := fun hone => h ⟨not_not.mp hcode, hclose, hone⟩
    omega
  · exact hdepth

end Searching

/-! ## The closing parenthesis -/

section Closing

variable {angles : Bool} {s s' : Opened} {c : Char} {as bs cs : List Char}

/-- A step counts the parentheses that are open, and closes none that it has not opened. -/
theorem Opened.parentheses_step (h : s.step? angles c = some s') {around : Nat}
    (haround : 1 ≤ around) :
    ¬(s.literal = .code ∧ c = ')' ∧ around + s.parentheses ≤ 1) ∧
      depthBehind '(' ')' (around + s.parentheses) s.literal c = around + s'.parentheses := by
  simp only [Opened.parentheses, depthBehind]
  by_cases hcode : s.literal = .code
  · rcases brackets_of_code h hcode with ⟨hopen, heq⟩ | ⟨opening, heq, hmatch⟩ |
      ⟨hopen, hclose, -, heq⟩
    · rcases hopen with rfl | rfl | rfl | ⟨-, rfl⟩ <;> simp [hcode, heq, Nat.add_assoc]
    · rcases hmatch with ⟨rfl, rfl⟩ | ⟨rfl, rfl⟩ | ⟨rfl, rfl⟩ | ⟨-, -, rfl, rfl⟩ <;>
        simp [hcode, heq]
      omega
    · simp [hcode, heq, hopen, hclose]
  · simp [hcode, brackets_of_literal h hcode]

/-- Looking for a closing parenthesis, the depth is the number of open parentheses. -/
theorem closingFrom_step (h : s.step? angles c = some s') {around : Nat} (haround : 1 ≤ around)
    (rest : List Char) :
    closingFrom '(' ')' (around + s.parentheses) s.literal (c :: rest) =
      (closingFrom '(' ')' (around + s'.parentheses) s'.literal rest).map
        fun (before, after) => (c :: before, after) := by
  obtain ⟨⟨hliteral, -⟩, -⟩ := Opened.step?_cases h
  obtain ⟨hstop, hdepth⟩ := Opened.parentheses_step h haround
  rw [closingFrom_cons (by decide), if_neg hstop, hdepth, hliteral]

/-- A text with all its parentheses matched, as seen from inside a parenthesis. -/
def PassesBy (cs : List Char) : Prop :=
  ∀ around rest, 1 ≤ around → closingFrom '(' ')' around .code (cs ++ rest) =
    (closingFrom '(' ')' around .code rest).map fun (before, after) => (cs ++ before, after)

theorem PassesBy.nil : PassesBy [] := by
  intro around rest _
  simp

theorem PassesBy.append (has : PassesBy as) (hbs : PassesBy bs) : PassesBy (as ++ bs) := by
  intro around rest haround
  rw [List.append_assoc, has around _ haround, hbs around _ haround, Option.map_map]
  simp [Function.comp_def]

theorem closingFrom_run (h : Opened.run? angles s cs = some s') {around : Nat}
    (haround : 1 ≤ around) (rest : List Char) :
    closingFrom '(' ')' (around + s.parentheses) s.literal (cs ++ rest) =
      (closingFrom '(' ')' (around + s'.parentheses) s'.literal rest).map
        fun (before, after) => (cs ++ before, after) := by
  induction cs generalizing s with
  | nil =>
    cases h
    simp
  | cons c cs ih =>
    obtain ⟨t, hstep, hrun⟩ := Opened.run?_cons h
    rw [List.cons_append, closingFrom_step hstep haround, ih hrun, Option.map_map]
    rfl

theorem IsBalanced.passesBy (h : IsBalanced angles cs) : PassesBy cs := by
  obtain ⟨dash, hrun⟩ := h.exists_run?
  intro around rest haround
  exact closingFrom_run hrun haround rest

/-- A comma, and whatever else is no parenthesis and no quote, does not matter either. -/
theorem PassesBy.singleton (hc : c ≠ '(' ∧ c ≠ ')' ∧ isQuote c = false) : PassesBy [c] := by
  intro around rest _
  simp [closingFrom, hc]

/-- What stands between parentheses. -/
theorem PassesBy.enclosed? (h : PassesBy cs) (rest : List Char) :
    enclosed? '(' ')' ('(' :: (cs ++ ')' :: rest)) = some (cs, rest) :=
  enclosed?_of_passed (by decide) (h 1 _ (Nat.le_refl 1))

end Closing

end ComponentWiring.Source

import ComponentWiring.Proofs.Source.HeaderEnds

/-!
What stands between the quotes of a literal. The search for a closing delimiter passes it by
(`closingFrom_literal`), so that a body which goes on behind a literal ends at the same place,
whatever the literal says; and if it says nothing of a constructor, the body has a secondary
constructor or has none, whatever else it says (`any_bodyText?_literal`).
-/

namespace ComponentWiring.Source

open Text

/-- What can stand between the quotes of a literal on one line: the closing quote is the first that
closes the literal. -/
structure IsContent (quote : Char) (content : List Char) : Prop where
  stays : ∀ front, front <+: content → (LiteralState.inside quote).run front ≠ .code
  ends : (LiteralState.inside quote).run content = .inside quote
  line : '\n' ∉ content

theorem run_inside_of_plain {quote : Char} {cs : List Char} (h : ∀ c ∈ cs, c ≠ '\\' ∧ c ≠ quote) :
    (LiteralState.inside quote).run cs = .inside quote := by
  induction cs with
  | nil => rfl
  | cons c cs ih =>
    obtain ⟨⟨hescape, hquote⟩, hcs⟩ := List.forall_mem_cons.mp h
    rw [LiteralState.run_cons, LiteralState.step, if_neg hescape, if_neg hquote, ih hcs]

/-- Any text without quotes, backslashes and line breaks. -/
theorem isContent_of_plain {quote : Char} (hquote : isQuote quote = true) {content : List Char}
    (h : ∀ c ∈ content, isQuote c = false ∧ c ≠ '\\' ∧ c ≠ '\n') : IsContent quote content := by
  have hplain : ∀ c ∈ content, c ≠ '\\' ∧ c ≠ quote := by
    intro c hc
    obtain ⟨hnot, hescape, -⟩ := h c hc
    refine ⟨hescape, ?_⟩
    rintro rfl
    exact Bool.false_ne_true (hnot.symm.trans hquote)
  refine ⟨fun front hfront => ?_, run_inside_of_plain hplain, fun hbreak => (h _ hbreak).2.2 rfl⟩
  rw [run_inside_of_plain fun c hc => hplain c (hfront.subset hc)]
  exact LiteralState.noConfusion

/-! ## Closing delimiters -/

section Closing

variable {openMark closeMark : Char}
  (hmarks : isQuote openMark = false ∧ isQuote closeMark = false ∧ openMark ≠ closeMark)

include hmarks

/-- Inside a literal the search goes on. -/
theorem closingFrom_append_of_open {depth : Nat} {literal : LiteralState} {cs : List Char}
    (hopen : ∀ front, front <+: cs → literal.run front ≠ .code) (rest : List Char) :
    closingFrom openMark closeMark depth literal (cs ++ rest) =
      (closingFrom openMark closeMark depth (literal.run cs) rest).map
        fun (before, after) => (cs ++ before, after) := by
  induction cs generalizing literal with
  | nil => simp
  | cons c cs ih =>
    have hhere : literal ≠ .code := hopen [] List.nil_prefix
    have hlater : ∀ front, front <+: cs → (literal.step c).run front ≠ .code :=
      fun front hfront => hopen (c :: front) ((List.prefix_cons_inj c).mpr hfront)
    rw [List.cons_append, closingFrom_cons hmarks, if_neg fun hstop => hhere hstop.1, depthBehind,
      if_pos hhere, ih hlater, Option.map_map]
    rfl

/-- A literal is passed by. -/
theorem closingFrom_literal {quote : Char} (hquote : isQuote quote = true) {content : List Char}
    (h : IsContent quote content) (depth : Nat) (tail : List Char) :
    closingFrom openMark closeMark depth .code (quote :: (content ++ quote :: tail)) =
      (closingFrom openMark closeMark depth .code tail).map
        fun (before, after) => (quote :: (content ++ quote :: before), after) := by
  have hne : quote ≠ openMark ∧ quote ≠ closeMark := by
    constructor <;> rintro rfl
    · exact Bool.false_ne_true (hmarks.1.symm.trans hquote)
    · exact Bool.false_ne_true (hmarks.2.1.symm.trans hquote)
  have hescape : quote ≠ '\\' := ne_of_isQuote hquote rfl
  rw [closingFrom_cons hmarks, if_neg fun hstop => hne.2 hstop.2.1]
  simp only [depthBehind, ne_eq, not_true_eq_false, if_false, hne, LiteralState.step, hquote,
    if_true]
  rw [closingFrom_append_of_open hmarks h.stays, h.ends, closingFrom_cons hmarks,
    if_neg fun hstop => LiteralState.noConfusion hstop.1]
  simp [depthBehind, LiteralState.step, hescape, Function.comp_def]

/-- Along a text the search stops, whatever follows it, or goes on behind it. -/
theorem closingFrom_append_cases (depth : Nat) (literal : LiteralState) (front : List Char) :
    (∃ before after, ∀ rest, closingFrom openMark closeMark depth literal (front ++ rest) =
      some (before, after ++ rest)) ∨
    ∃ depth', ∀ rest, closingFrom openMark closeMark depth literal (front ++ rest) =
      (closingFrom openMark closeMark depth' (literal.run front) rest).map
        fun (before, after) => (front ++ before, after) := by
  induction front generalizing depth literal with
  | nil => exact .inr ⟨depth, by simp⟩
  | cons c front ih =>
    by_cases hstop : literal = .code ∧ c = closeMark ∧ depth ≤ 1
    · refine .inl ⟨[], front, fun rest => ?_⟩
      rw [List.cons_append, closingFrom_cons hmarks, if_pos hstop]
    · rcases ih (depthBehind openMark closeMark depth literal c) (literal.step c) with
        ⟨before, after, hrest⟩ | ⟨depth', hrest⟩
      · refine .inl ⟨c :: before, after, fun rest => ?_⟩
        rw [List.cons_append, closingFrom_cons hmarks, if_neg hstop, hrest, Option.map_some]
      · refine .inr ⟨depth', fun rest => ?_⟩
        rw [List.cons_append, closingFrom_cons hmarks, if_neg hstop, hrest, Option.map_map]
        rfl

end Closing

/-! ## What a literal does not hold -/

/-- A reader that reads nothing at the quotes and nothing in between finds nothing in a literal. -/
theorem occurrencesFrom_literal {α : Type} {reader : ReaderAt α} {quote : Char}
    {content tail : List Char} (hquotes : ∀ previous rest, reader previous (quote :: rest) = none)
    (hcontent : ∀ before c after, content = before ++ c :: after →
      reader (before.getLast?.or (some quote)) (c :: (after ++ quote :: tail)) = none)
    (offset : Nat) (previous : Option Char) :
    occurrencesFrom reader 0 offset previous (quote :: (content ++ quote :: tail)) =
      occurrencesFrom reader 0 (offset + byteLength (quote :: (content ++ [quote]))) (some quote)
        tail := by
  have hstep (offset : Nat) (previous : Option Char) (rest : List Char) :
      occurrencesFrom reader 0 offset previous (quote :: rest) =
        occurrencesFrom reader 0 (offset + quote.utf8Size) (some quote) rest := by
    rw [occurrencesFrom, hquotes]
  rw [hstep, occurrencesFrom_of_none hcontent, hstep]
  simp only [byteLength_cons, byteLength_append, byteLength_nil, Nat.add_assoc, Nat.add_zero]

/-! ## Secondary constructors -/

section Quote

variable {quote : Char} (hquote : isQuote quote = true)

include hquote

theorem secondaryConstructor?_append_quote (previous : Option Char) (front tail : List Char) :
    secondaryConstructor? previous (front ++ quote :: tail) =
      (secondaryConstructor? previous front).map fun r => (r.1, r.2 ++ quote :: tail) := by
  have hparen : quote ≠ '(' := ne_of_isQuote hquote rfl
  unfold secondaryConstructor?
  split_ifs
  · rw [dropText?_append_quote hquote (by decide)]
    cases dropText? "constructor".toList front with
    | none => rfl
    | some rest =>
      simp only [Option.map_some, trimStart_append_quote hquote]
      cases trimStart rest with
      | nil => simp [hparen]
      | cons c rest => by_cases hc : c = '(' <;> simp [hc]
  · rfl

/-- A text that says nothing of a constructor, at the place of a literal. -/
theorem secondaryConstructor?_content {content : List Char}
    (hcontent : occurs secondaryConstructor? content = false) {before after : List Char} {c : Char}
    (heq : content = before ++ c :: after) (tail : List Char) :
    secondaryConstructor? (before.getLast?.or (some quote)) (c :: (after ++ quote :: tail)) =
      none := by
  have hnil : occurrences secondaryConstructor? (before ++ c :: after) = [] := by
    simpa [occurs, heq] using hcontent
  have hnone := eq_none_of_occurrencesFrom_eq_nil hnil
  have hprevious : secondaryConstructor? (before.getLast?.or (some quote)) (c :: after) =
      secondaryConstructor? (before.getLast?.or none) (c :: after) := by
    cases before.getLast? with
    | some d => rfl
    | none =>
      have hdotted : isDottedChar quote = false := class_of_isQuote (by decide) hquote
      simp [secondaryConstructor?, hdotted]
  rw [← List.cons_append, secondaryConstructor?_append_quote hquote, hprevious, hnone]
  rfl

/-- What is found in front of a literal that says nothing of a constructor, and behind it. -/
theorem occurrences_secondaryConstructor?_literal {content : List Char}
    (hcontent : occurs secondaryConstructor? content = false) (front tail : List Char) :
    occurrences secondaryConstructor? (front ++ quote :: (content ++ quote :: tail)) =
      (occurrences secondaryConstructor? front).map
          (·.extend (quote :: (content ++ quote :: tail))) ++
        occurrencesFrom secondaryConstructor? 0
          (byteLength (front ++ quote :: (content ++ [quote]))) (some quote) tail := by
  have hquotes (previous : Option Char) (rest : List Char) :
      secondaryConstructor? previous (quote :: rest) = none := by
    have hempty : secondaryConstructor? previous [] = none := by
      unfold secondaryConstructor?
      split_ifs <;> rfl
    rw [← List.nil_append (quote :: rest), secondaryConstructor?_append_quote hquote, hempty]
    rfl
  rw [occurrences, occurrencesFrom_append_of_map
      fun previous part _ _ => secondaryConstructor?_append_quote hquote previous part _,
    occurrencesFrom_literal hquotes
      fun _ _ _ heq => secondaryConstructor?_content hquote hcontent heq _,
    byteLength_append, Nat.zero_add]
  rfl

/-- Whether a body has a secondary constructor does not depend on what such a literal says. -/
theorem any_bodyText?_literal {content content' left tail : List Char}
    (hleft : LiteralState.code.run left = .code) (h : IsContent quote content)
    (h' : IsContent quote content') (hbytes : byteLength content = byteLength content')
    (hmute : occurs secondaryConstructor? content = false)
    (hmute' : occurs secondaryConstructor? content' = false) :
    (bodyText? (left ++ quote :: (content ++ quote :: tail))).any (occurs secondaryConstructor?) =
      (bodyText? (left ++ quote :: (content' ++ quote :: tail))).any
        (occurs secondaryConstructor?) := by
  have hbrace : quote ≠ '{' := ne_of_isQuote hquote rfl
  have hoccurs (front tail : List Char) :
      occurs secondaryConstructor? (front ++ quote :: (content ++ quote :: tail)) =
        occurs secondaryConstructor? (front ++ quote :: (content' ++ quote :: tail)) := by
    unfold occurs
    rw [occurrences_secondaryConstructor?_literal hquote hmute,
      occurrences_secondaryConstructor?_literal hquote hmute']
    simp only [byteLength_append, byteLength_cons, hbytes]
    cases occurrences secondaryConstructor? front <;> rfl
  cases left with
  | nil => simp [bodyText?, hbrace]
  | cons c inner =>
    by_cases hopen : c = '{'
    · subst hopen
      have hinner : LiteralState.code.run inner = .code := hleft
      have hmarks : isQuote '{' = false ∧ isQuote '}' = false ∧ '{' ≠ '}' := by decide
      simp only [bodyText?, List.cons_append, enclosed?_cons hmarks]
      rcases closingFrom_append_cases hmarks 1 .code inner with
        ⟨before, after, hstop⟩ | ⟨depth, hgo⟩
      · rw [hstop, hstop]
        rfl
      · rw [hgo, hgo, hinner, closingFrom_literal hmarks hquote h,
          closingFrom_literal hmarks hquote h']
        cases closingFrom '{' '}' depth .code tail with
        | none => rfl
        | some r => simp [hoccurs]
    · simp [bodyText?, hopen]

end Quote

end ComponentWiring.Source

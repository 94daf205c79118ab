import Mathlib.Data.List.DropRight
import ComponentWiring.Proofs.Pass.InvisibleComments

/-!
What is left of a bare expression when it is bared again. No comment is left in it, and no blank at
either end. A separator can be left at its end: the run of separators that trails the expression is
taken off once, and where blanks stand in front of this run there may be another one before them.
That is the only case in which an expression changes the second time
(`bareExpression_settled_iff`).
-/

namespace ComponentWiring.Source

open Text

/-! ## Without comments -/

theorem CodeAvoids.of_append {bad : Char → Option Char → Bool} (hend : ∀ c, bad c none = false)
    {literal : LiteralState} {as bs : List Char} (h : CodeAvoids bad literal (as ++ bs)) :
    CodeAvoids bad literal as ∧ CodeAvoids bad (literal.run as) bs := by
  induction as generalizing literal with
  | nil => exact ⟨trivial, h⟩
  | cons a as ih =>
    obtain ⟨ha, hrest⟩ := h
    obtain ⟨has, hbs⟩ := ih hrest
    refine ⟨⟨fun hcode => ?_, has⟩, hbs⟩
    cases as with
    | nil => exact hend a
    | cons d as => exact ha hcode

/-- One step of leaving comments out. A character is kept where no comment opens. Otherwise the text
ends in a line comment, a block comment ends and leaves a space, or the comment goes on. -/
theorem withoutComments_cons (state : CommentState) (c : Char) (rest : List Char) :
    (∃ literal, state = .source literal ∧ (literal = .code → opensComment c rest.head? = false) ∧
      withoutComments state (c :: rest) =
        c :: withoutComments (.source (literal.step c)) rest) ∨
    state.literal = .code ∧ (withoutComments state (c :: rest) = [] ∨
      withoutComments state (c :: rest) = ' ' :: withoutComments (.source .code) rest ∨
      ∃ next : CommentState, (∀ literal, next ≠ .source literal) ∧
        withoutComments state (c :: rest) = withoutComments next rest) := by
  cases state with
  | source literal =>
    cases literal with
    | code =>
      rw [withoutComments]
      split_ifs with hline hblock
      · exact .inr ⟨rfl, .inl rfl⟩
      · exact .inr ⟨rfl, .inr (.inr ⟨.opening, by simp, rfl⟩)⟩
      · refine .inl ⟨.code, rfl, fun _ => ?_, rfl⟩
        simp only [opensComment, Bool.and_eq_false_iff, Bool.or_eq_false_iff, beq_eq_false_iff_ne]
        tauto
    | inside quote => exact .inl ⟨_, rfl, LiteralState.noConfusion, rfl⟩
    | escaped quote => exact .inl ⟨_, rfl, LiteralState.noConfusion, rfl⟩
  | line => exact .inr ⟨rfl, .inl rfl⟩
  | opening => exact .inr ⟨rfl, .inr (.inr ⟨.block false, by simp, rfl⟩)⟩
  | block star =>
    rw [withoutComments]
    split_ifs with hend
    · exact .inr ⟨rfl, .inr (.inl rfl)⟩
    · exact .inr ⟨rfl, .inr (.inr ⟨_, by simp, rfl⟩)⟩

/-- A comment leaves nothing or a space, and any other text starts as it did. -/
theorem head?_withoutComments {state : CommentState} {cs : List Char} {d : Char}
    (h : d ∈ (withoutComments state cs).head?) :
    d = ' ' ∨ (∃ literal, state = .source literal) ∧ d ∈ cs.head? := by
  induction cs generalizing state with
  | nil =>
    cases state <;> simp [withoutComments] at h
    all_goals exact .inl h.symm
  | cons c rest ih =>
    rcases withoutComments_cons state c rest with
      ⟨literal, rfl, -, hkept⟩ | ⟨-, hgone | hspace | ⟨next, hcomment, hnext⟩⟩
    · rw [hkept] at h
      exact .inr ⟨⟨literal, rfl⟩, h⟩
    · rw [hgone] at h
      cases h
    · rw [hspace] at h
      exact .inl (Option.some.inj h).symm
    · rw [hnext] at h
      exact .inl ((ih h).resolve_right fun hsource => hcomment _ hsource.1.choose_spec)

/-- No comment is left: what follows a kept slash is what follows it in the text, or a space. -/
theorem codeAvoids_withoutComments (state : CommentState) (cs : List Char) :
    CodeAvoids opensComment state.literal (withoutComments state cs) := by
  induction cs generalizing state with
  | nil =>
    have hspace : CodeAvoids opensComment .code [' '] := by decide
    cases state with
    | source literal => cases literal <;> exact trivial
    | line => exact trivial
    | opening => exact hspace
    | block star => exact hspace
  | cons c rest ih =>
    rcases withoutComments_cons state c rest with
      ⟨literal, rfl, hmark, hkept⟩ | ⟨hcode, hgone | hspace | ⟨next, hcomment, hnext⟩⟩
    · rw [hkept]
      refine ⟨fun hcode => ?_, ih (.source (literal.step c))⟩
      cases hhead : (withoutComments (.source (literal.step c)) rest).head? with
      | none => simp [opensComment]
      | some d =>
        rcases head?_withoutComments hhead with rfl | ⟨-, hd⟩
        · simp [opensComment]
        · exact Option.mem_def.mp hd ▸ hmark hcode
    · rw [hgone]
      exact trivial
    · rw [hspace, hcode]
      have hblank : ∀ c ∈ [' '], isBlank c = true := by decide
      exact codeAvoids_blanks_append hblank (ih (.source .code))
    · have hliteral : next.literal = .code := by
        cases next with
        | source literal => exact absurd rfl (hcomment literal)
        | line => rfl
        | opening => rfl
        | block star => rfl
      rw [hnext, hcode, ← hliteral]
      exact ih next

/-! ## Without trailing separators -/

theorem dropTrailingSeparators_concat (cs : List Char) (c : Char) :
    dropTrailingSeparators (cs ++ [c]) =
      if isSeparator c then dropTrailingSeparators cs else cs ++ [c] := by
  induction cs with
  | nil => rfl
  | cons d cs ih =>
    rw [List.cons_append, dropTrailingSeparators, ih]
    cases hc : isSeparator c with
    | true => simp only [if_true, dropTrailingSeparators]
    | false => cases cs <;> rfl

theorem dropTrailingSeparators_eq_rdropWhile (cs : List Char) :
    dropTrailingSeparators cs = cs.rdropWhile isSeparator := by
  induction cs using List.reverseRecOn with
  | nil => rfl
  | append_singleton cs c ih => rw [dropTrailingSeparators_concat, List.rdropWhile_concat, ih]

theorem exists_separators_of_dropTrailingSeparators (cs : List Char) :
    ∃ tail, (∀ c ∈ tail, isSeparator c = true) ∧ cs = dropTrailingSeparators cs ++ tail := by
  refine ⟨cs.rtakeWhile isSeparator, fun c hc => List.mem_rtakeWhile_imp hc, ?_⟩
  rw [dropTrailingSeparators_eq_rdropWhile, List.rdropWhile_append_rtakeWhile]

theorem getLast?_dropTrailingSeparators (cs : List Char) :
    ∀ c ∈ (dropTrailingSeparators cs).getLast?, isSeparator c = false := by
  intro c hc
  rw [dropTrailingSeparators_eq_rdropWhile, Option.mem_def] at hc
  have hne : cs.rdropWhile isSeparator ≠ [] := List.ne_nil_of_mem (List.mem_of_getLast? hc)
  rw [List.getLast?_eq_getLast_of_ne_nil hne, Option.some.injEq] at hc
  exact Bool.eq_false_iff.mpr (hc ▸ List.rdropWhile_last_not isSeparator cs hne)

theorem dropTrailingSeparators_append {tail : List Char} (htail : ∀ c ∈ tail, isSeparator c = true)
    (cs : List Char) : dropTrailingSeparators (cs ++ tail) = dropTrailingSeparators cs := by
  induction tail using List.reverseRecOn with
  | nil => rw [List.append_nil]
  | append_singleton tail c ih =>
    obtain ⟨htail, hc⟩ := List.forall_mem_append.mp htail
    rw [← List.append_assoc, dropTrailingSeparators_concat,
      if_pos (hc c (List.mem_singleton_self c)),
      ih htail]

theorem isBlank_of_isSeparator {c : Char} (hc : isSeparator c = true) : isBlank c = false := by
  rw [isSeparator, Bool.or_eq_true, beq_iff_eq, beq_iff_eq] at hc
  rcases hc with rfl | rfl <;> rfl

theorem isSeparator_of_isBlank {c : Char} (hc : isBlank c = true) : isSeparator c = false :=
  Bool.eq_false_iff.mpr fun h => Bool.false_ne_true ((isBlank_of_isSeparator h).symm.trans hc)

/-! ## Bare expressions -/

/-- A text whose trailing separators stand behind blanks that stand behind a separator. -/
def HasPartedSeparators (cs : List Char) : Prop :=
  ∃ front separator gap tail blanks, cs = front ++ separator :: (gap ++ (tail ++ blanks)) ∧
    isSeparator separator = true ∧ gap ≠ [] ∧ isAllBlank gap = true ∧ tail ≠ [] ∧
    (∀ c ∈ tail, isSeparator c = true) ∧ isAllBlank blanks = true

section Bare

theorem head?_trim (cs : List Char) : ∀ c ∈ (trim cs).head?, isBlank c = false := fun c hc =>
  (trimmed_trim (List.ne_nil_of_mem (List.mem_of_mem_head? hc))).head c hc

theorem getLast?_trim (cs : List Char) : ∀ c ∈ (trim cs).getLast?, isBlank c = false :=
  getLast?_trimEnd_eq_false

variable {cs : List Char}

/-- A bare expression is the trimmed text without comments, up to its trailing separators and the
blanks in front of these. -/
theorem exists_trim_eq (cs : List Char) : ∃ gap tail,
    trim (withoutComments (.source .code) cs) = bareExpression cs ++ gap ++ tail ∧
      isAllBlank gap = true ∧ (∀ c ∈ tail, isSeparator c = true) ∧
      ∀ c ∈ (bareExpression cs ++ gap).getLast?, isSeparator c = false := by
  obtain ⟨tail, htail, htrim⟩ := exists_separators_of_dropTrailingSeparators
    (trim (withoutComments (.source .code) cs))
  have hlast := getLast?_dropTrailingSeparators (trim (withoutComments (.source .code) cs))
  have hbare : bareExpression cs =
      trim (dropTrailingSeparators (trim (withoutComments (.source .code) cs))) := rfl
  generalize dropTrailingSeparators (trim (withoutComments (.source .code) cs)) = kept
    at htrim hlast hbare
  obtain ⟨gap, hgap, hkept⟩ := exists_blank_of_trimEnd kept
  have hhead : ∀ c ∈ kept.head?, isBlank c = false := fun c hc =>
    head?_trim (withoutComments (.source .code) cs) c
      (htrim ▸ List.mem_head?_append_of_mem_head? hc)
  have hsame : bareExpression cs ++ gap = kept := by
    rw [hbare, trim, trimStart_eq_self hhead, ← hkept]
  exact ⟨gap, tail, by rw [hsame, htrim], hgap, htail, hsame ▸ hlast⟩

/-- Parted separators leave one at the end. -/
theorem bareExpression_eq_of_parted {front gap tail blanks : List Char} {separator : Char}
    (hcs : withoutComments (.source .code) cs = front ++ separator :: (gap ++ (tail ++ blanks)))
    (hseparator : isSeparator separator = true) (hgap : gap ≠ []) (hblank : isAllBlank gap = true)
    (htail : tail ≠ []) (htails : ∀ c ∈ tail, isSeparator c = true)
    (hblanks : isAllBlank blanks = true) :
    bareExpression cs = trimStart front ++ [separator] := by
  have hsolid := isBlank_of_isSeparator hseparator
  have htrim : trim (withoutComments (.source .code) cs) =
      (trimStart front ++ [separator]) ++ gap ++ tail := by
    have hend : ∀ c ∈ ((trimStart front ++ [separator]) ++ gap ++ tail).getLast?,
        isBlank c = false := fun c hc => by
      rw [List.getLast?_append_of_ne_nil _ htail] at hc
      exact isBlank_of_isSeparator (htails c (List.mem_of_getLast? hc))
    have htext : trimStart front ++ separator :: (gap ++ (tail ++ blanks)) =
        ((trimStart front ++ [separator]) ++ gap ++ tail) ++ blanks := by simp
    rw [hcs, trim, trimStart_append_cons hsolid, htext, trimEnd_append_of_blank hblanks,
      trimEnd_eq_self hend]
  have hkept : ∀ c ∈ ((trimStart front ++ [separator]) ++ gap).getLast?, isSeparator c = false :=
    fun c hc => by
      rw [List.getLast?_append_of_ne_nil _ hgap] at hc
      exact isSeparator_of_isBlank (List.all_eq_true.mp hblank c (List.mem_of_getLast? hc))
  have hfront : trimStart (trimStart front ++ [separator]) = trimStart front ++ [separator] := by
    have hhead : ∀ c ∈ (trimStart front).head?, isBlank c = false := head?_dropWhile_eq_false
    rw [trimStart_append_cons hsolid, trimStart_eq_self hhead]
  rw [bareExpression, htrim, dropTrailingSeparators_append htails,
    dropTrailingSeparators_eq_self hkept, trim_append_of_blank hblank, trim, hfront,
    trimEnd_eq_self (by simpa using hsolid)]

/-- A separator is left at the end of a bare expression just where separators are parted. -/
theorem hasPartedSeparators_iff : HasPartedSeparators (withoutComments (.source .code) cs) ↔
    ∃ c ∈ (bareExpression cs).getLast?, isSeparator c = true := by
  constructor
  · rintro ⟨front, separator, gap, tail, blanks, hcs, hseparator, hgap, hblank, htail, htails,
      hblanks⟩
    refine ⟨separator, ?_, hseparator⟩
    rw [bareExpression_eq_of_parted hcs hseparator hgap hblank htail htails hblanks]
    simp
  · rintro ⟨separator, hlast, hseparator⟩
    obtain ⟨gap, tail, htrim, hblank, htails, hkept⟩ := exists_trim_eq cs
    obtain ⟨before, after, -, hafter, hcs⟩ :=
      exists_blanks_of_trim (withoutComments (.source .code) cs)
    obtain ⟨front, hbare⟩ := List.getLast?_eq_some_iff.mp hlast
    have hgap : gap ≠ [] := by
      rintro rfl
      rw [List.append_nil] at hkept
      exact Bool.false_ne_true ((hkept separator hlast).symm.trans hseparator)
    have htail : tail ≠ [] := by
      rintro rfl
      obtain ⟨c, hc⟩ : ∃ c, gap.getLast? = some c := ⟨_, List.getLast?_eq_getLast_of_ne_nil hgap⟩
      have hblankEnd : isBlank c = true := List.all_eq_true.mp hblank c (List.mem_of_getLast? hc)
      have hend : c ∈ (trim (withoutComments (.source .code) cs)).getLast? := by
        rw [htrim, List.append_nil, List.getLast?_append_of_ne_nil _ hgap]
        exact hc
      exact Bool.false_ne_true ((getLast?_trim _ c hend).symm.trans hblankEnd)
    refine ⟨before ++ front, separator, gap, tail, after, ?_, hseparator, hgap, hblank, htail,
      htails, hafter⟩
    rw [hcs, htrim, hbare]
    simp

theorem run_code_of_blank (h : isAllBlank cs = true) : LiteralState.code.run cs = .code := by
  induction cs with
  | nil => rfl
  | cons c cs ih =>
    obtain ⟨hc, hcs⟩ := isAllBlank_cons.mp h
    rw [LiteralState.run_cons, LiteralState.step_code_of_not_isQuote
      (isQuote_of_class (p := isBlank) rfl hc), ih hcs]

theorem codeAvoids_bareExpression (cs : List Char) :
    CodeAvoids opensComment .code (bareExpression cs) := by
  obtain ⟨gap, tail, htrim, -⟩ := exists_trim_eq cs
  obtain ⟨before, after, hbefore, -, hcs⟩ :=
    exists_blanks_of_trim (withoutComments (.source .code) cs)
  have hend (c : Char) : opensComment c none = false := by simp [opensComment]
  have hall : CodeAvoids opensComment .code (withoutComments (.source .code) cs) :=
    codeAvoids_withoutComments (.source .code) cs
  rw [hcs, htrim, List.append_assoc, List.append_assoc, List.append_assoc] at hall
  have hbehind := (hall.of_append hend).2
  rw [run_code_of_blank hbefore] at hbehind
  exact (hbehind.of_append hend).1

/-- The second time only trailing separators are taken off, with the blanks in front of them. -/
theorem bareExpression_bareExpression (cs : List Char) :
    bareExpression (bareExpression cs) = trim (dropTrailingSeparators (bareExpression cs)) := by
  rw [bareExpression, withoutComments_eq_self (codeAvoids_bareExpression cs)]
  exact congrArg (fun kept => trim (dropTrailingSeparators kept)) (trim_trim _)

/-- So a separator that is left makes the expression shorter the second time. -/
theorem length_bareExpression_lt (h : ∃ c ∈ (bareExpression cs).getLast?, isSeparator c = true) :
    (bareExpression (bareExpression cs)).length < (bareExpression cs).length := by
  obtain ⟨separator, hlast, hseparator⟩ := h
  obtain ⟨front, hbare⟩ := List.getLast?_eq_some_iff.mp hlast
  obtain ⟨before, after, -, -, htrim⟩ := exists_blanks_of_trim (dropTrailingSeparators front)
  obtain ⟨tail, -, hfront⟩ := exists_separators_of_dropTrailingSeparators front
  rw [bareExpression_bareExpression, hbare, dropTrailingSeparators_concat, if_pos hseparator]
  have hdropped := congrArg List.length htrim
  have hlength := congrArg List.length hfront
  simp only [List.length_append, List.length_cons, List.length_nil] at hdropped hlength ⊢
  omega

end Bare

/-- A bare expression has no blank at either end. Bared again it stays as it is, and it does not end
with a separator, unless its trailing separators stand behind blanks that stand behind another
separator; then one is left at its end, and the second time it changes. -/
theorem bareExpression_settled_iff (cs : List Char) :
    (∀ c ∈ (bareExpression cs).head?, isBlank c = false) ∧
    (∀ c ∈ (bareExpression cs).getLast?, isBlank c = false) ∧
    ((∀ c ∈ (bareExpression cs).getLast?, isSeparator c = false) ↔
      ¬HasPartedSeparators (withoutComments (.source .code) cs)) ∧
    (bareExpression (bareExpression cs) = bareExpression cs ↔
      ¬HasPartedSeparators (withoutComments (.source .code) cs)) := by
  have hends : (∀ c ∈ (bareExpression cs).getLast?, isSeparator c = false) ↔
      ¬HasPartedSeparators (withoutComments (.source .code) cs) := by
    rw [hasPartedSeparators_iff]
    simp only [not_exists, not_and, Bool.not_eq_true]
  refine ⟨head?_trim _, getLast?_trim _, hends, ?_⟩
  rw [← hends]
  constructor
  · intro hsame c hc
    by_contra hseparator
    have hshorter := length_bareExpression_lt ⟨c, hc, by simpa using hseparator⟩
    exact Nat.ne_of_lt hshorter (congrArg List.length hsame)
  · intro hlast
    rw [bareExpression_bareExpression, dropTrailingSeparators_eq_self hlast]
    exact trim_trim _

/-- After a list of separators with a blank among them, one of them is left, and a second time it
is taken off. -/
theorem bareExpression_partedCommas :
    bareExpression "42 , ,".toList = "42 ,".toList ∧
      (∃ c ∈ "42 ,".toList.getLast?, isSeparator c = true) ∧
      bareExpression (bareExpression "42 , ,".toList) = "42".toList :=
  ⟨by decide +kernel, ⟨',', rfl, rfl⟩, by decide +kernel⟩

end ComponentWiring.Source

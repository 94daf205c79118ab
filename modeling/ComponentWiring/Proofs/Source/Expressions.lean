import ComponentWiring.Proofs.Source.Balance
import ComponentWiring.Proofs.Source.ImportLines
import ComponentWiring.Source.ClassHead
import ComponentWiring.Source.Expression

/-!
Expressions that are read back as they are written, and texts without comments. Where no comment
starts outside literals, blanking comments out and leaving them out both change nothing. A text that
is written line by line has no comments if none of its lines has one and every line closes its
literals.
-/

namespace ComponentWiring.Source

open Text

/-! ## What stands outside literals -/

/-- No place outside literals has a given property of its character and the next one. -/
def CodeAvoids (bad : Char → Option Char → Bool) : LiteralState → List Char → Prop
  | _, [] => True
  | literal, c :: rest =>
    (literal = .code → bad c rest.head? = false) ∧ CodeAvoids bad (literal.step c) rest

instance CodeAvoids.decide (bad : Char → Option Char → Bool) :
    (literal : LiteralState) → (cs : List Char) → Decidable (CodeAvoids bad literal cs)
  | _, [] => .isTrue trivial
  | literal, c :: rest =>
    have := CodeAvoids.decide bad (literal.step c) rest
    inferInstanceAs (Decidable ((literal = .code → bad c rest.head? = false) ∧
      CodeAvoids bad (literal.step c) rest))

/-- The two characters that open a comment. -/
def opensComment (c : Char) (next : Option Char) : Bool :=
  c == '/' && (next == some '/' || next == some '*')

/-- A text that opens no comment is kept in front of what does not go on a comment mark. -/
theorem mask_append {literal : LiteralState} {as bs : List Char}
    (h : CodeAvoids opensComment literal as) (hhead : ∀ c ∈ bs.head?, c ≠ '/' ∧ c ≠ '*') :
    CommentState.mask (.source literal) (as ++ bs) =
      as ++ CommentState.mask (.source (literal.run as)) bs := by
  induction as generalizing literal with
  | nil => rfl
  | cons c rest ih =>
    obtain ⟨hc, hrest⟩ := h
    have hstep : (CommentState.source literal).step c (rest ++ bs).head? =
        ([c], .source (literal.step c)) := by
      cases literal with
      | code =>
        have hmark : opensComment c (rest ++ bs).head? = false := by
          cases rest with
          | nil =>
            cases hb : bs.head? with
            | none => simp [opensComment, hb]
            | some d => simp [opensComment, hb, hhead d hb]
          | cons d rest => exact hc rfl
        simp only [opensComment, Bool.and_eq_false_iff, Bool.or_eq_false_iff,
          beq_eq_false_iff_ne] at hmark
        rw [CommentState.step, if_neg (by tauto), if_neg (by tauto)]
      | inside quote => rfl
      | escaped quote => rfl
    rw [List.cons_append, CommentState.mask, hstep]
    exact congrArg (c :: ·) (ih hrest)

theorem mask_eq_self {literal : LiteralState} {cs : List Char}
    (h : CodeAvoids opensComment literal cs) : CommentState.mask (.source literal) cs = cs := by
  have happend := mask_append h (show ∀ c ∈ ([] : List Char).head?, c ≠ '/' ∧ c ≠ '*' by simp)
  rwa [List.append_nil, CommentState.mask, List.append_nil] at happend

theorem withoutComments_eq_self {literal : LiteralState} {cs : List Char}
    (h : CodeAvoids opensComment literal cs) : withoutComments (.source literal) cs = cs := by
  induction cs generalizing literal with
  | nil => rfl
  | cons c rest ih =>
    obtain ⟨hc, hrest⟩ := h
    cases literal with
    | code =>
      have hmark := hc rfl
      simp only [opensComment, Bool.and_eq_false_iff, Bool.or_eq_false_iff,
        beq_eq_false_iff_ne] at hmark
      rw [withoutComments, if_neg (by tauto), if_neg (by tauto), ih hrest]
    | inside quote => rw [withoutComments, ih hrest]; exact LiteralState.noConfusion
    | escaped quote => rw [withoutComments, ih hrest]; exact LiteralState.noConfusion

/-! ## Texts line by line -/

/-- A text without comments that closes its literals. -/
structure Silent (cs : List Char) : Prop where
  avoids : CodeAvoids opensComment .code cs
  closes : LiteralState.code.run cs = .code

theorem CodeAvoids.append {bad : Char → Option Char → Bool} {literal : LiteralState}
    {as bs : List Char} (has : CodeAvoids bad literal as)
    (hbs : CodeAvoids bad (literal.run as) bs)
    (hjoint : ∀ c, bad c none = false → bad c bs.head? = false) :
    CodeAvoids bad literal (as ++ bs) := by
  induction as generalizing literal with
  | nil => exact hbs
  | cons a as ih =>
    obtain ⟨ha, has⟩ := has
    refine ⟨fun hcode => ?_, ih has hbs⟩
    cases as with
    | nil => exact hjoint a (ha hcode)
    | cons d as => exact ha hcode

namespace Silent

variable {as bs cs : List Char} {c : Char}

theorem nil : Silent [] := ⟨trivial, rfl⟩

/-- Two texts without comments make no comment where they meet, if the second one does not start
with a character that goes on a comment mark. -/
theorem append (has : Silent as) (hbs : Silent bs)
    (hhead : ∀ c ∈ bs.head?, c ≠ '/' ∧ c ≠ '*') : Silent (as ++ bs) where
  avoids := by
    refine has.avoids.append (has.closes.symm ▸ hbs.avoids) fun c _ => ?_
    cases hb : bs.head? with
    | none => simp [opensComment]
    | some d => simp [opensComment, hhead d hb]
  closes := by rw [LiteralState.run_append, has.closes, hbs.closes]

/-- A character that opens neither a comment nor a literal. -/
theorem cons (hslash : c ≠ '/') (hquote : isQuote c = false) (h : Silent cs) :
    Silent (c :: cs) := by
  have hstep : LiteralState.code.step c = .code := LiteralState.step_code_of_not_isQuote hquote
  refine ⟨⟨fun _ => by simp [opensComment, hslash], hstep.symm ▸ h.avoids⟩, ?_⟩
  rw [LiteralState.run_cons, hstep, h.closes]

theorem of_not_mem (hslash : '/' ∉ cs) (hquote : ∀ c ∈ cs, isQuote c = false) : Silent cs := by
  induction cs with
  | nil => exact nil
  | cons c cs ih =>
    rw [List.mem_cons, not_or] at hslash
    obtain ⟨hc, hcs⟩ := List.forall_mem_cons.mp hquote
    exact cons (Ne.symm hslash.1) hc (ih hslash.2 hcs)

/-- A class of characters without the slash and the quotes. -/
theorem of_class {p : Char → Bool} (hp : "/\"'".toList.any p = false)
    (h : ∀ c ∈ cs, p c = true) : Silent cs := by
  simp only [String.reduceToList, List.any_cons, Bool.or_eq_false_iff] at hp
  refine of_not_mem (fun hmem => ?_) fun c hc => ?_
  · exact Bool.false_ne_true (hp.1.symm.trans (h '/' hmem))
  · exact isQuote_of_class (by simp [hp.2.1, hp.2.2]) (h c hc)

theorem unlines {lines : List (List Char)} (h : ∀ line ∈ lines, Silent line) :
    Silent (unlines lines) := by
  induction lines with
  | nil => exact nil
  | cons line lines ih =>
    obtain ⟨hline, hlines⟩ := List.forall_mem_cons.mp h
    rw [unlines_cons]
    exact hline.append ((ih hlines).cons (by decide) rfl) (by simp)

theorem blankComments_eq (h : Silent cs) : blankComments cs = cs :=
  mask_eq_self h.avoids

theorem blankComments_append (has : Silent as) (hhead : ∀ c ∈ bs.head?, c ≠ '/' ∧ c ≠ '*') :
    blankComments (as ++ bs) = as ++ blankComments bs := by
  rw [blankComments, mask_append has.avoids hhead, has.closes]
  rfl

end Silent

/-! ## Expressions -/

theorem dropTrailingSeparators_eq_self {cs : List Char}
    (h : ∀ c ∈ cs.getLast?, isSeparator c = false) : dropTrailingSeparators cs = cs := by
  induction cs with
  | nil => rfl
  | cons c rest ih =>
    cases rest with
    | nil => simp [dropTrailingSeparators, h c rfl]
    | cons d rest => rw [dropTrailingSeparators, ih (by simpa using h)]

/-- An expression without comments and trailing separators is kept as it is. -/
theorem bareExpression_eq_self {cs : List Char} (hcomment : CodeAvoids opensComment .code cs)
    (htrimmed : Trimmed cs) (hlast : ∀ c ∈ cs.getLast?, isSeparator c = false) :
    bareExpression cs = cs := by
  rw [bareExpression, withoutComments_eq_self hcomment, htrimmed.trim_eq,
    dropTrailingSeparators_eq_self hlast, htrimmed.trim_eq]

/-- A character that could be an angle bracket. -/
def isAngle (c : Char) (_next : Option Char) : Bool :=
  c == '<' || c == '>'

/-- Without angle brackets it does not matter whether they are counted. -/
theorem run?_of_avoids_angles {s s' : Opened} {cs : List Char}
    (h : Opened.run? false s cs = some s') (havoids : CodeAvoids isAngle s.literal cs) :
    Opened.run? true s cs = some s' := by
  induction cs generalizing s with
  | nil => exact h
  | cons c cs ih =>
    obtain ⟨hc, hcs⟩ := havoids
    obtain ⟨t, hstep, hrun⟩ := Opened.run?_cons h
    have hsame : s.step? true c = s.step? false c := by
      by_cases hcode : s.literal = .code
      · have hangle := hc hcode
        simp only [isAngle, Bool.or_eq_false_iff] at hangle
        simp [Opened.step?, isOpening, isClosing, hangle]
      · simp [Opened.step?, hcode]
    obtain ⟨⟨hliteral, -⟩, -⟩ := Opened.step?_cases hstep
    rw [Opened.run?, hsame, hstep]
    exact ih hrun (hliteral ▸ hcs)

/-- A default expression on one line: closed, trimmed, without comments and comparisons outside its
literals, not followed by a separator, and free of the words that introduce a class. -/
structure PlainExpression (cs : List Char) : Prop where
  trimmed : Trimmed cs
  oneLine : '\n' ∉ cs
  balanced : IsBalanced false cs
  noAngle : CodeAvoids isAngle .code cs
  noComment : CodeAvoids opensComment .code cs
  noSeparator : ∀ c ∈ cs.getLast?, isSeparator c = false
  wordFree : FreeOf classWords cs

namespace PlainExpression

variable {cs : List Char}

theorem balanced_true (h : PlainExpression cs) : IsBalanced true cs := by
  obtain ⟨s, hrun, hclosed⟩ := h.balanced
  exact ⟨s, run?_of_avoids_angles hrun h.noAngle, hclosed⟩

theorem silent (h : PlainExpression cs) : Silent cs :=
  ⟨h.noComment, h.balanced.closes⟩

theorem bareExpression_eq (h : PlainExpression cs) : bareExpression cs = cs :=
  bareExpression_eq_self h.noComment h.trimmed h.noSeparator

end PlainExpression

end ComponentWiring.Source

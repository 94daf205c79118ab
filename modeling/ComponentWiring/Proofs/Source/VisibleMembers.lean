import ComponentWiring.Proofs.Pass.InvisibleComments
import ComponentWiring.Proofs.Source.MatchingDelimiters

/-!
What shows of a class body among its own members. Braces count outside literals, and a closing brace
where none is open counts nothing (`braceRun_eq_zero_iff`). Where no brace is open everything shows,
and inside braces only line breaks do, and the brace that closes the last open one (`Visible`). For
any other character there are as many spaces as it has bytes (`exists_written`), so that what shows
has the byte and the line that it has in the body.

The second time nothing changes (`ownMembers_ownMembers`). What opens and closes inside braces is no
longer there, braces and quotes alike, so that the brace which ends them is found again.
-/

namespace ComponentWiring.Source

open Text

/-! ## Open braces -/

/-- Behind a text no brace is open: no stretch at its end opens more braces than it closes, where
braces in literals do not count. -/
def NoneOpen (literal : LiteralState) (cs : List Char) : Prop :=
  ∀ front stretch, cs = front ++ stretch →
    ¬Delimiters.braces.IsOpen 0 (literal.run front) stretch

section Braces

variable {depth : Nat} {literal : LiteralState} {c : Char} {cs before : List Char}

theorem isOpen_braces_iff : Delimiters.braces.IsOpen depth literal cs ↔
    countOutside '\x7d' literal cs < depth + countOutside '\x7b' literal cs :=
  Iff.rfl

theorem noneOpen_cons_iff : NoneOpen literal (c :: cs) ↔
    ¬Delimiters.braces.IsOpen 0 literal (c :: cs) ∧ NoneOpen (literal.step c) cs := by
  constructor
  · intro h
    exact ⟨h [] _ rfl, fun front stretch hcs => h (c :: front) stretch (by rw [hcs]; rfl)⟩
  · rintro ⟨hall, hrest⟩ front stretch hcs
    cases front with
    | nil => exact (show c :: cs = stretch from hcs) ▸ hall
    | cons d front =>
      obtain ⟨rfl, htail⟩ := List.cons.inj hcs
      exact hrest front stretch htail

/-- A brace counts where it is read, unless it closes none. -/
theorem braceDepth_add (depth : Nat) (literal : LiteralState) (c : Char) :
    braceDepth depth literal c +
        (if literal = .code ∧ c = '\x7d' then min 1 depth else 0) =
      depth + (if literal = .code ∧ c = '\x7b' then 1 else 0) := by
  unfold braceDepth
  by_cases hcode : literal = .code
  · by_cases hopen : c = '\x7b'
    · simp [hcode, hopen]
    · by_cases hclose : c = '\x7d'
      · simp [hcode, hclose]
        omega
      · simp [hopen, hclose]
  · simp [hcode]

/-- Behind a text that is read at a given depth no brace is open if the text closes that many more
than it opens, and no stretch at its end opens more than it closes. -/
theorem braceRun_eq_zero_iff : braceRun depth literal cs = 0 ↔
    ¬Delimiters.braces.IsOpen depth literal cs ∧ NoneOpen literal cs := by
  induction cs generalizing depth literal with
  | nil =>
    have hnone : NoneOpen literal [] := by
      intro front stretch hcs
      obtain ⟨rfl, rfl⟩ := List.append_eq_nil_iff.mp hcs.symm
      exact Nat.lt_irrefl 0
    simp [braceRun, hnone, isOpen_braces_iff, countOutside]
  | cons c cs ih =>
    rw [braceRun, ih, noneOpen_cons_iff, ← and_assoc]
    refine and_congr_left fun hrest => ?_
    have hstep := braceDepth_add depth literal c
    have hcs : ¬Delimiters.braces.IsOpen 0 (literal.step c) cs := hrest [] cs rfl
    simp only [isOpen_braces_iff, countOutside] at hcs ⊢
    by_cases hclose : literal = .code ∧ c = '\x7d'
    · have hopen : ¬(literal = .code ∧ c = '\x7b') := fun hopen =>
        absurd (hclose.2.symm.trans hopen.2) (by decide)
      rw [if_pos hclose, if_neg hopen] at hstep ⊢
      omega
    · rw [if_neg hclose] at hstep ⊢
      omega

theorem noneOpen_code_iff : NoneOpen .code cs ↔ braceRun 0 .code cs = 0 := by
  rw [braceRun_eq_zero_iff]
  exact ⟨fun h => ⟨h [] cs rfl, h⟩, And.right⟩

/-- The last open brace is closed by a brace outside literals. -/
theorem closes_of_braceDepth (hdepth : 0 < depth) (h : braceDepth depth literal c = 0) :
    literal = .code ∧ c = '\x7d' ∧ depth = 1 := by
  unfold braceDepth at h
  split_ifs at h with hcode hopen hclose
  · omega
  · exact ⟨not_not.mp hcode, hclose, by omega⟩
  · omega

end Braces

/-! ## What shows -/

/-- A character that shows behind a text. -/
inductive Visible (before : List Char) : Char → Prop
  | lineBreak : Visible before '\n'
  | outside (c : Char) (h : NoneOpen .code before) : Visible before c
  | closing (hcode : LiteralState.code.run before = .code)
      (h : NoneOpen .code (before ++ ['\x7d'])) : Visible before '\x7d'

section Shown

variable {depth : Nat} {literal : LiteralState} {c : Char} {cs before : List Char}

/-- Inside braces blanks stand for a character. -/
theorem shown_inside {before after : Nat} (hbefore : 0 < before) (hafter : 0 < after) (c : Char) :
    shown before after c = blankFor c := by
  by_cases hbreak : c = '\n'
  · simp [shown, blankFor, hbreak]
  · rw [shown, if_pos ⟨hbefore, hafter, hbreak⟩, blankFor, if_neg hbreak]

theorem shown_cases (before after : Nat) (c : Char) :
    (¬(0 < before ∧ 0 < after ∧ c ≠ '\n') ∧ shown before after c = [c]) ∨
      (0 < before ∧ 0 < after ∧ c ≠ '\n') ∧ shown before after c = blankFor c := by
  by_cases hhidden : 0 < before ∧ 0 < after ∧ c ≠ '\n'
  · exact .inr ⟨hhidden, shown_inside hhidden.1 hhidden.2.1 c⟩
  · exact .inl ⟨hhidden, if_neg hhidden⟩

theorem braceRun_concat (depth : Nat) (literal : LiteralState) (cs : List Char) (c : Char) :
    braceRun depth literal (cs ++ [c]) =
      braceDepth (braceRun depth literal cs) (literal.run cs) c :=
  braceRun_append depth literal cs [c]

theorem visible_iff : Visible before c ↔ ¬(0 < braceRun 0 .code before ∧
    0 < braceRun 0 .code (before ++ [c]) ∧ c ≠ '\n') := by
  constructor
  · rintro (_ | ⟨_, h⟩ | ⟨hcode, h⟩) ⟨hbefore, hafter, hbreak⟩
    · exact hbreak rfl
    · exact Nat.ne_of_gt hbefore (noneOpen_code_iff.mp h)
    · exact Nat.ne_of_gt hafter (noneOpen_code_iff.mp h)
  · intro h
    by_cases hbreak : c = '\n'
    · exact hbreak ▸ .lineBreak
    · rcases Nat.eq_zero_or_pos (braceRun 0 .code before) with hzero | hpos
      · exact .outside c (noneOpen_code_iff.mpr hzero)
      · have hafter : braceRun 0 .code (before ++ [c]) = 0 := by
          by_contra hne
          exact h ⟨hpos, Nat.pos_of_ne_zero hne, hbreak⟩
        have hstep := hafter
        rw [braceRun_concat] at hstep
        obtain ⟨hcode, rfl, -⟩ := closes_of_braceDepth hpos hstep
        exact .closing hcode (noneOpen_code_iff.mpr hafter)

theorem blanked_directMembersFrom (depth : Nat) (literal : LiteralState) (cs : List Char) :
    Blanked cs (directMembersFrom depth literal cs) := by
  induction cs generalizing depth literal with
  | nil => exact .nil
  | cons c cs ih =>
    rw [directMembersFrom]
    rcases shown_cases depth (braceDepth depth literal c) c with ⟨-, hshown⟩ | ⟨-, hshown⟩
    · rw [hshown]
      exact .kept c (ih _ _)
    · rw [hshown]
      exact .blanked c (ih _ _)

theorem blanked_ownMembers (body : List Char) : Blanked body (ownMembers body) :=
  blanked_directMembersFrom 0 .code body

theorem directMembersFrom_append (depth : Nat) (literal : LiteralState) (as bs : List Char) :
    directMembersFrom depth literal (as ++ bs) = directMembersFrom depth literal as ++
      directMembersFrom (braceRun depth literal as) (literal.run as) bs := by
  induction as generalizing depth literal with
  | nil => rfl
  | cons a as ih =>
    rw [List.cons_append, directMembersFrom, ih, directMembersFrom, List.append_assoc]
    rfl

/-- For each character of a body either it is written itself or as many spaces as it has bytes. It
is the character exactly if it shows. -/
theorem exists_written (before : List Char) (c : Char) (after : List Char) :
    ∃ front written behind, ownMembers (before ++ c :: after) = front ++ (written ++ behind) ∧
      byteLength front = byteLength before ∧
      (Visible before c ∧ written = [c] ∨
        ¬Visible before c ∧ written = List.replicate c.utf8Size ' ') := by
  have hafter := braceRun_concat 0 .code before c
  let depth := braceRun 0 .code (before ++ [c])
  refine ⟨ownMembers before, shown (braceRun 0 .code before) depth c,
    directMembersFrom depth (LiteralState.code.run (before ++ [c])) after, ?_,
    (blanked_ownMembers before).byteLength_eq, ?_⟩
  · simp only [ownMembers, directMembersFrom_append, directMembersFrom, ← hafter, depth,
      LiteralState.run_append, LiteralState.run_cons, LiteralState.run_nil]
  · rw [visible_iff]
    rcases shown_cases (braceRun 0 .code before) (braceRun 0 .code (before ++ [c])) c with
      ⟨hvisible, hshown⟩ | ⟨hhidden, hshown⟩
    · exact .inl ⟨hvisible, hshown⟩
    · exact .inr ⟨not_not_intro hhidden, by rw [hshown, blankFor, if_neg hhidden.2.2]⟩

/-- A brace in a literal closes nothing. -/
example : ownMembers "a \x7b \"\x7d\" \x7d b".toList = "a \x7b     \x7d b".toList := by decide

end Shown

/-! ## A second time -/

/-- Blanks inside braces stay, and so does what follows them. -/
theorem directMembersFrom_blankFor_append (c : Char) (cs : List Char) :
    directMembersFrom 1 .code (blankFor c ++ cs) = blankFor c ++ directMembersFrom 1 .code cs := by
  unfold blankFor
  split
  · rfl
  · generalize c.utf8Size = n
    induction n with
    | zero => rfl
    | succ n ih =>
      rw [List.replicate_succ, List.cons_append, directMembersFrom, List.cons_append]
      exact congrArg (' ' :: ·) ih

/-- Outside braces a text is read the second time as the first time. Inside braces only spaces and
line breaks are left of it, and it is read at depth one and outside literals. -/
theorem directMembersFrom_directMembersFrom (cs : List Char) :
    (∀ literal, directMembersFrom 0 literal (directMembersFrom 0 literal cs) =
      directMembersFrom 0 literal cs) ∧
    ∀ depth literal, 0 < depth →
      directMembersFrom 1 .code (directMembersFrom depth literal cs) =
        directMembersFrom depth literal cs := by
  induction cs with
  | nil => exact ⟨fun _ => rfl, fun _ _ _ => rfl⟩
  | cons c cs ih =>
    obtain ⟨houtside, hinside⟩ := ih
    constructor
    · intro literal
      rw [directMembersFrom_zero_cons, directMembersFrom_zero_cons]
      refine congrArg (c :: ·) ?_
      by_cases hopens : literal = .code ∧ c = '\x7b'
      · obtain ⟨rfl, rfl⟩ := hopens
        exact hinside 1 .code Nat.one_pos
      · have hdepth : braceDepth 0 literal c = 0 := by
          have hadd := braceDepth_add 0 literal c
          rw [if_neg hopens] at hadd
          omega
        rw [hdepth]
        exact houtside _
    · intro depth literal hdepth
      rw [directMembersFrom]
      rcases Nat.eq_zero_or_pos (braceDepth depth literal c) with hafter | hafter
      · obtain ⟨rfl, rfl, rfl⟩ := closes_of_braceDepth hdepth hafter
        exact congrArg ('\x7d' :: ·) (houtside .code)
      · simp only [shown_inside hdepth hafter]
        rw [directMembersFrom_blankFor_append, hinside _ _ hafter]

/-- Hiding what stands in inner braces a second time changes nothing. -/
theorem ownMembers_ownMembers (body : List Char) : ownMembers (ownMembers body) = ownMembers body :=
  (directMembersFrom_directMembersFrom body).1 .code

end ComponentWiring.Source

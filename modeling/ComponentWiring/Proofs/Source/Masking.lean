import Mathlib.Data.List.Basic
import ComponentWiring.Proofs.Text.Cutting
import ComponentWiring.Source.Comment
import ComponentWiring.Source.Member

/-!
Texts of which parts are blanked out: comments, and what stands in inner braces. What remains
visible stands in the text itself, with the same characters behind it up to the next mark at which
something may be blanked (`exists_of_mask_eq`, `exists_of_directMembersFrom_eq`). So a text with
something blanked out holds no word and no annotation that the text does not hold.
-/

namespace ComponentWiring.Source

open Text

/-- Blanks in front of a visible character stand in front of it altogether. -/
theorem exists_of_blank_append {written rest before s : List Char} {a : Char}
    (hblank : ∀ d ∈ written, isBlank d = true) (ha : isBlank a = false)
    (h : written ++ rest = before ++ a :: s) :
    ∃ between, before = written ++ between ∧ rest = between ++ a :: s := by
  rcases exists_of_append_eq_append_cons h with ⟨more, rfl⟩ | hbehind
  · rw [hblank a (by simp)] at ha
    cases ha
  · exact hbehind

/-! ## Comments -/

namespace CommentState

theorem mask_cons_of_ne {c : Char} (hc : c ≠ '/') (literal : LiteralState) (rest : List Char) :
    mask (source literal) (c :: rest) = c :: mask (source (literal.step c)) rest := by
  have hstep : (source literal).step c rest.head? = ([c], source (literal.step c)) := by
    cases literal <;> simp [step, hc]
  rw [mask, hstep]
  rfl

theorem isBlank_of_mem_blankFor {c d : Char} (h : d ∈ blankFor c) : isBlank d = true := by
  unfold blankFor at h
  split at h
  · rw [List.mem_singleton.mp h]
    rfl
  · rw [List.eq_of_mem_replicate h]
    rfl

theorem blankFor_ne_nil (c : Char) : blankFor c ≠ [] := by
  unfold blankFor
  split
  · simp
  · simpa using (Char.utf8Size_pos c).ne'

theorem blankFor_slash : blankFor '/' = [' '] := rfl

/-- A character that opens no comment is written as it is outside comments, and blanked everywhere
else. A comment ends behind a slash or a line break, with no literal open. -/
theorem step_cases (state : CommentState) (c : Char) (next : Option Char) :
    (∃ literal, state = source literal ∧
      (literal = .code → c = '/' → next ≠ some '/' ∧ next ≠ some '*') ∧
      state.step c next = ([c], source (literal.step c))) ∨
    ((∀ literal, state = source literal → literal = .code) ∧
      (state.step c next).1 = blankFor c ∧
      ∀ literal, (state.step c next).2 = source literal →
        literal = .code ∧ (c = '/' ∨ c = '\n')) := by
  cases state with
  | source literal =>
    cases literal with
    | code =>
      by_cases hline : c = '/' ∧ next = some '/'
      · simp [step, hline, blankFor_slash]
      · by_cases hblock : c = '/' ∧ next = some '*'
        · simp [step, hblock, blankFor_slash]
        · exact .inl ⟨.code, rfl, fun _ hc => ⟨fun h => hline ⟨hc, h⟩, fun h => hblock ⟨hc, h⟩⟩,
            by rw [step, if_neg hline, if_neg hblock]⟩
    | inside quote => exact .inl ⟨_, rfl, nofun, rfl⟩
    | escaped quote => exact .inl ⟨_, rfl, nofun, rfl⟩
  | line =>
    refine .inr ⟨nofun, rfl, fun literal h => ?_⟩
    by_cases hbreak : c = '\n'
    · simp only [step, if_pos hbreak, source.injEq] at h
      exact ⟨h.symm, .inr hbreak⟩
    · simp [step, hbreak] at h
  | opening => exact .inr ⟨nofun, rfl, nofun⟩
  | block star =>
    refine .inr ⟨nofun, rfl, fun literal h => ?_⟩
    by_cases hclose : star = true ∧ c = '/'
    · simp only [step, if_pos hclose, source.injEq] at h
      exact ⟨h.symm, .inl hclose.2⟩
    · simp [step, hclose] at h

/-- A visible character is read outside comments. -/
theorem exists_source_of_mask_cons {state : CommentState} {a c : Char} {rest s : List Char}
    (h : mask state (c :: rest) = a :: s) (ha : isBlank a = false) :
    ∃ literal, state = source literal := by
  rcases step_cases state c rest.head? with ⟨literal, hstate, -⟩ | ⟨-, hblank, -⟩
  · exact ⟨literal, hstate⟩
  · obtain ⟨d, written, hwritten⟩ := List.exists_cons_of_ne_nil (blankFor_ne_nil c)
    rw [mask] at h
    simp only [hblank, hwritten, List.cons_append, List.cons.injEq] at h
    have hd := isBlank_of_mem_blankFor (hwritten ▸ List.mem_cons_self)
    rw [h.1, ha] at hd
    cases hd

/-- A visible character stands in the text, and what is written behind it is read outside comments.
In front of it stands the same character, unless a comment ends there. -/
theorem exists_of_mask_eq {state : CommentState} {cs before s : List Char} {a : Char}
    (h : mask state cs = before ++ a :: s) (ha : isBlank a = false) :
    ∃ before' cs' literal, cs = before' ++ a :: cs' ∧ s = mask (source literal) cs' ∧
      (before' = [] → before = []) ∧
      ∀ b ∈ before'.getLast?, b = '/' ∨ b = '\n' ∨ b ∈ before.getLast? := by
  induction cs generalizing state before with
  | nil => simp [mask] at h
  | cons d rest ih =>
    have hmask : mask state (d :: rest) =
        (state.step d rest.head?).1 ++ mask (state.step d rest.head?).2 rest := rfl
    rw [hmask] at h
    rcases step_cases state d rest.head? with ⟨literal, rfl, -, hstep⟩ | ⟨-, hblank, hends⟩
    · rw [hstep, List.singleton_append] at h
      cases before with
      | nil =>
        obtain ⟨hd, hs⟩ := List.cons.inj h
        exact ⟨[], rest, _, by rw [hd]; rfl, hs.symm, fun _ => rfl, by simp⟩
      | cons b before =>
        obtain ⟨rfl, htail⟩ := List.cons.inj h
        obtain ⟨before', cs', literal', rfl, hs, hnil, hlast⟩ := ih htail
        refine ⟨d :: before', cs', literal', rfl, hs, by simp, fun b hb => ?_⟩
        cases before' with
        | nil =>
          obtain rfl := hnil rfl
          exact .inr (.inr hb)
        | cons b' before' =>
          refine (hlast b hb).imp id (Or.imp id fun hb => ?_)
          rw [List.getLast?_cons, Option.mem_def.mp hb]
          rfl
    · rw [hblank] at h
      obtain ⟨between, rfl, htail⟩ :=
        exists_of_blank_append (fun _ => isBlank_of_mem_blankFor) ha h
      obtain ⟨before', cs', literal', rfl, hs, hnil, hlast⟩ := ih htail
      refine ⟨d :: before', cs', literal', rfl, hs, by simp, fun b hb => ?_⟩
      cases before' with
      | nil =>
        obtain rfl : d = b := by simpa using hb
        obtain rfl := hnil rfl
        obtain ⟨literal, hsource⟩ := exists_source_of_mask_cons htail ha
        exact (hends literal hsource).2.imp id .inl
      | cons b' before' =>
        refine (hlast b hb).imp id (Or.imp id fun hb => ?_)
        rw [List.getLast?_append, Option.mem_def.mp hb]
        rfl

/-- Behind a visible character nothing is blanked before the next slash. -/
theorem mask_eq_takeWhile_append {p : Char → Bool} (hp : p '/' = false) (literal : LiteralState)
    (cs : List Char) :
    ∃ literal', mask (source literal) cs =
      cs.takeWhile p ++ mask (source literal') (cs.dropWhile p) := by
  induction cs generalizing literal with
  | nil => exact ⟨literal, rfl⟩
  | cons c rest ih =>
    cases hc : p c with
    | false => exact ⟨literal, by simp [hc]⟩
    | true =>
      have hne : c ≠ '/' := by
        rintro rfl
        exact Bool.false_ne_true (hp.symm.trans hc)
      obtain ⟨literal', hrest⟩ := ih (literal.step c)
      exact ⟨literal', by simp [mask_cons_of_ne hne, hrest, hc]⟩

theorem head?_mask {literal : LiteralState} {cs : List Char} {c : Char}
    (h : c ∈ (mask (source literal) cs).head?) : c ∈ cs.head? ∨ c = ' ' ∧ '/' ∈ cs.head? := by
  cases cs with
  | nil => cases h
  | cons d rest =>
    by_cases hd : d = '/'
    · subst hd
      rcases literal with _ | quote | quote
      · rw [mask, step] at h
        split_ifs at h
        · exact .inr ⟨by simpa [eq_comm] using h, rfl⟩
        · exact .inr ⟨by simpa [eq_comm] using h, rfl⟩
        · exact .inl h
      · exact .inl h
      · exact .inl h
    · rw [mask_cons_of_ne hd] at h
      exact .inl h

/-- So a stretch that holds neither slashes nor spaces is the same in the text, and ends at the same
place. -/
theorem takeWhile_mask {p : Char → Bool} (hslash : p '/' = false) (hspace : p ' ' = false)
    (literal : LiteralState) (cs : List Char) :
    (mask (source literal) cs).takeWhile p = cs.takeWhile p ∧
      ∃ literal', (mask (source literal) cs).dropWhile p =
        mask (source literal') (cs.dropWhile p) := by
  obtain ⟨literal', hmask⟩ := mask_eq_takeWhile_append hslash literal cs
  have hin : ∀ c ∈ cs.takeWhile p, p c = true := fun _ => List.mem_takeWhile_imp
  have hstop : ∀ c ∈ (mask (source literal') (cs.dropWhile p)).head?, p c = false := by
    intro c hc
    rcases head?_mask hc with hc | ⟨rfl, -⟩
    · exact head?_dropWhile_eq_false c hc
    · exact hspace
  rw [hmask]
  exact ⟨takeWhile_append_of_head hin hstop, literal', dropWhile_append_of_head hin hstop⟩

end CommentState

/-! ## Inner braces -/

theorem braceDepth_of_ne {c : Char} (hopen : c ≠ '\x7b') (hclose : c ≠ '\x7d') (depth : Nat)
    (literal : LiteralState) : braceDepth depth literal c = depth := by
  simp [braceDepth, hopen, hclose]

/-- At depth zero everything is visible. -/
theorem directMembersFrom_zero_cons (literal : LiteralState) (c : Char) (rest : List Char) :
    directMembersFrom 0 literal (c :: rest) =
      c :: directMembersFrom (braceDepth 0 literal c) (literal.step c) rest := by
  simp [directMembersFrom, shown]

/-- The number of braces that are open behind a text. -/
def braceRun : (depth : Nat) → LiteralState → List Char → Nat
  | depth, _, [] => depth
  | depth, literal, c :: rest => braceRun (braceDepth depth literal c) (literal.step c) rest

theorem braceRun_append (depth : Nat) (literal : LiteralState) (as bs : List Char) :
    braceRun depth literal (as ++ bs) =
      braceRun (braceRun depth literal as) (literal.run as) bs := by
  induction as generalizing depth literal with
  | nil => rfl
  | cons a as ih => exact ih _ _

theorem byteLength_shown (before after : Nat) (c : Char) :
    byteLength (shown before after c) = c.utf8Size := by
  have hspaces : ∀ n, byteLength (List.replicate n ' ') = n := by
    intro n
    induction n with
    | zero => rfl
    | succ n ih => rw [List.replicate_succ, byteLength_cons, ih, Nat.add_comm]; rfl
  unfold shown
  split_ifs
  · exact hspaces _
  · exact Nat.add_zero _

/-- A visible character that is no brace stands in the text, at the same byte and where no brace is
open. -/
theorem exists_of_directMembersFrom_eq {depth : Nat} {literal : LiteralState}
    {cs before s : List Char} {a : Char}
    (h : directMembersFrom depth literal cs = before ++ a :: s) (ha : isBlank a = false)
    (hopen : a ≠ '\x7b') (hclose : a ≠ '\x7d') :
    ∃ before' cs', cs = before' ++ a :: cs' ∧ byteLength before' = byteLength before ∧
      braceRun depth literal before' = 0 ∧
      s = directMembersFrom 0 ((literal.run before').step a) cs' := by
  induction cs generalizing depth literal before with
  | nil => simp [directMembersFrom] at h
  | cons d rest ih =>
    have hlater (written : List Char) {between : List Char} (hwritten : byteLength written = d.utf8Size)
        (h : directMembersFrom (braceDepth depth literal d) (literal.step d) rest =
          between ++ a :: s) :
        ∃ before' cs', d :: rest = before' ++ a :: cs' ∧
          byteLength before' = byteLength (written ++ between) ∧
          braceRun depth literal before' = 0 ∧
          s = directMembersFrom 0 ((literal.run before').step a) cs' := by
      obtain ⟨before', cs', rfl, hlength, hdepth, hs⟩ := ih h
      refine ⟨d :: before', cs', rfl, ?_, hdepth, hs⟩
      rw [byteLength_cons, byteLength_append, hlength, hwritten]
    have hwidth := byteLength_shown depth (braceDepth depth literal d) d
    rw [directMembersFrom] at h
    by_cases hhidden : depth > 0 ∧ braceDepth depth literal d > 0 ∧ d ≠ '\n'
    · have hblank : ∀ c ∈ shown depth (braceDepth depth literal d) d, isBlank c = true := by
        intro c hc
        rw [shown, if_pos hhidden] at hc
        rw [List.eq_of_mem_replicate hc]
        rfl
      obtain ⟨between, rfl, htail⟩ := exists_of_blank_append hblank ha h
      exact hlater _ hwidth htail
    · rw [shown, if_neg hhidden] at h hwidth
      rw [List.singleton_append] at h
      cases before with
      | nil =>
        obtain ⟨rfl, hs⟩ := List.cons.inj h
        have hbreak : d ≠ '\n' := by
          rintro rfl
          cases ha
        rw [braceDepth_of_ne hopen hclose] at hs hhidden
        obtain rfl : depth = 0 := by
          by_contra hne
          exact hhidden ⟨Nat.pos_of_ne_zero hne, Nat.pos_of_ne_zero hne, hbreak⟩
        exact ⟨[], rest, rfl, rfl, rfl, hs.symm⟩
      | cons b before =>
        obtain ⟨rfl, htail⟩ := List.cons.inj h
        exact hlater [d] hwidth htail

/-- Behind a visible character nothing is blanked before the next brace. -/
theorem directMembersFrom_eq_takeWhile_append {p : Char → Bool} (hopen : p '\x7b' = false)
    (literal : LiteralState) (cs : List Char) :
    ∃ literal', directMembersFrom 0 literal cs =
      cs.takeWhile p ++ directMembersFrom 0 literal' (cs.dropWhile p) := by
  induction cs generalizing literal with
  | nil => exact ⟨literal, rfl⟩
  | cons c rest ih =>
    cases hc : p c with
    | false => exact ⟨literal, by simp [hc]⟩
    | true =>
      have hne : c ≠ '\x7b' := by
        rintro rfl
        exact Bool.false_ne_true (hopen.symm.trans hc)
      have hdepth : braceDepth 0 literal c = 0 := by
        simp [braceDepth, hne]
      obtain ⟨literal', hrest⟩ := ih (literal.step c)
      exact ⟨literal', by simp [directMembersFrom_zero_cons, hdepth, hrest, hc]⟩

theorem head?_directMembersFrom (literal : LiteralState) (cs : List Char) :
    (directMembersFrom 0 literal cs).head? = cs.head? := by
  cases cs with
  | nil => rfl
  | cons c rest => rw [directMembersFrom_zero_cons]; rfl

/-- So a stretch that holds no brace is the same in the text. -/
theorem takeWhile_directMembersFrom {p : Char → Bool} (hopen : p '\x7b' = false)
    (literal : LiteralState) (cs : List Char) :
    (directMembersFrom 0 literal cs).takeWhile p = cs.takeWhile p := by
  obtain ⟨literal', hmembers⟩ := directMembersFrom_eq_takeWhile_append hopen literal cs
  rw [hmembers]
  refine takeWhile_append_of_head (fun _ => List.mem_takeWhile_imp) fun c hc => ?_
  rw [head?_directMembersFrom] at hc
  exact head?_dropWhile_eq_false c hc

end ComponentWiring.Source

import ComponentWiring.Proofs.Source.ListCutting

/-!
Cutting what was cut already. At a separating comma nothing is open, so that the scan goes on behind
it as it started; hence the pieces of a list are known by two facts, which make no use of the list:
each keeps together, and nothing is open behind each but the last (`Pieces`). Both facts survive
trimming, since blanks open nothing and close nothing.

It follows that a part is cut no further and that parts joined by commas are cut into the same parts
(`topLevelParts_retracts`), whatever brackets and literals the text leaves open.
-/

namespace ComponentWiring.Source

open Text

/-! ## Places where nothing is open -/

namespace LiteralState

/-- The quote of an open literal is one of the two that open a literal. -/
def WellQuoted : LiteralState → Prop
  | code => True
  | inside quote => isQuote quote = true
  | escaped quote => isQuote quote = true

variable {l : LiteralState}

theorem WellQuoted.step (h : l.WellQuoted) (c : Char) : (l.step c).WellQuoted := by
  cases l with
  | code =>
    rw [LiteralState.step]
    split
    · next hquote => exact hquote
    · exact trivial
  | inside quote =>
    rw [LiteralState.step]
    split_ifs
    · exact h
    · exact trivial
    · exact h
  | escaped quote => exact h

/-- A blank ends no literal. -/
theorem WellQuoted.eq_code_of_blank (h : l.WellQuoted) {c : Char} (hc : isBlank c = true)
    (hstep : l.step c = code) : l = code := by
  cases l with
  | code => rfl
  | inside quote =>
    rw [LiteralState.step] at hstep
    split_ifs at hstep with hescape hend
    -- The quote would be the blank.
    have hquote : isQuote c = true := hend ▸ h
    rw [isQuote_of_class (p := isBlank) rfl hc] at hquote
    cases hquote
  | escaped quote => cases hstep

end LiteralState

namespace Nesting

variable {track : Bool} {n : Nesting} {as : List Char}

theorem wellQuoted_run (h : n.literal.WellQuoted) : (n.run track as).literal.WellQuoted := by
  induction as generalizing n with
  | nil => exact h
  | cons a as ih =>
    rw [run_cons]
    apply ih
    rw [step_literal]
    exact h.step a

/-- What is closed behind blanks was closed in front of them. -/
theorem Closed.of_blank (hquote : n.literal.WellQuoted) (hblank : isAllBlank as = true)
    (h : (n.run track as).Closed) : n.Closed := by
  induction as generalizing n with
  | nil => exact h
  | cons a as ih =>
    rw [isAllBlank_cons] at hblank
    rw [run_cons, step_of_blank hblank.1] at h
    have hstep := ih (hquote.step a) hblank.2 h
    exact ⟨hstep.depth, hstep.angles, hquote.eq_code_of_blank hblank.1 hstep.literal⟩

end Nesting

/-! ## The pieces of a list -/

/-- Pieces between separating commas: each keeps together, and nothing is open behind each but the
last. -/
structure Pieces (track : Bool) (pieces : List (List Char)) : Prop where
  keeps : ∀ piece ∈ pieces, ({} : Nesting).Keeps track piece
  closed : ∀ piece ∈ pieces.dropLast, (Nesting.run track {} piece).Closed

section Cutting

variable {track : Bool} {pieces : List (List Char)} {piece cs : List Char}

/-- A text keeps together, or it has a first comma that separates. -/
theorem keeps_or_exists_comma (track : Bool) (n : Nesting) (cs : List Char) :
    n.Keeps track cs ∨ ∃ before after, cs = before ++ ',' :: after ∧ n.Keeps track before ∧
      (n.run track before).Closed := by
  induction cs generalizing n with
  | nil => exact .inl trivial
  | cons c cs ih =>
    cases hsep : n.separates c with
    | true =>
      obtain ⟨rfl, hclosed⟩ := Nesting.separates_iff.mp hsep
      exact .inr ⟨[], cs, rfl, trivial, hclosed⟩
    | false =>
      rcases ih (n.step track c) with hkeeps | ⟨before, after, rfl, hkeeps, hclosed⟩
      · exact .inl ⟨hsep, hkeeps⟩
      · exact .inr ⟨c :: before, after, rfl, ⟨hsep, hkeeps⟩, hclosed⟩

theorem Pieces.singleton (h : ({} : Nesting).Keeps track piece) : Pieces track [piece] where
  keeps := List.forall_mem_singleton.mpr h
  closed := by simp

theorem Pieces.cons (h : Pieces track pieces) (hkeeps : ({} : Nesting).Keeps track piece)
    (hclosed : (Nesting.run track {} piece).Closed) : Pieces track (piece :: pieces) where
  keeps := List.forall_mem_cons.mpr ⟨hkeeps, h.keeps⟩
  closed := by
    cases pieces with
    | nil => simp
    | cons next pieces =>
      rw [List.dropLast_cons_of_ne_nil (List.cons_ne_nil _ _)]
      exact List.forall_mem_cons.mpr ⟨hclosed, h.closed⟩

theorem Pieces.dropLast (h : Pieces track pieces) : Pieces track pieces.dropLast where
  keeps := fun piece hpiece => h.keeps piece ((List.dropLast_sublist _).mem hpiece)
  closed := fun piece hpiece => h.closed piece ((List.dropLast_sublist _).mem hpiece)

/-- A list is cut into pieces. -/
theorem pieces_cutFrom (track : Bool) (cs : List Char) : Pieces track (cutFrom track {} cs) := by
  rcases keeps_or_exists_comma track {} cs with hkeeps | ⟨before, after, hcs, hkeeps, hclosed⟩
  · rw [cutFrom_of_keeps hkeeps]
    exact .singleton hkeeps
  · have hshorter : after.length < cs.length := by
      rw [hcs, List.length_append, List.length_cons]
      omega
    rw [hcs, cutFrom_append_comma hkeeps hclosed.eq]
    exact (pieces_cutFrom track after).cons hkeeps hclosed
termination_by cs.length

/-- Pieces joined by commas are cut into the same pieces. -/
theorem Pieces.cutFrom_intercalate (h : Pieces track pieces) (hne : pieces ≠ []) :
    cutFrom track {} ([','].intercalate pieces) = pieces := by
  induction pieces with
  | nil => exact absurd rfl hne
  | cons piece pieces ih =>
    obtain ⟨hpiece, hpieces⟩ := List.forall_mem_cons.mp h.keeps
    cases pieces with
    | nil => rw [List.intercalate_singleton, cutFrom_of_keeps hpiece]
    | cons next pieces =>
      have hclosed := h.closed
      rw [List.dropLast_cons_of_ne_nil (List.cons_ne_nil _ _), List.forall_mem_cons] at hclosed
      rw [List.intercalate_cons_cons, List.append_assoc, List.singleton_append,
        cutFrom_append_comma hpiece hclosed.1.eq, ih ⟨hpieces, hclosed.2⟩ (List.cons_ne_nil _ _)]

theorem keeps_trim (h : ({} : Nesting).Keeps track piece) :
    ({} : Nesting).Keeps track (trim piece) := by
  obtain ⟨before, after, hbefore, hafter, hpiece⟩ := exists_blanks_of_trim piece
  rw [hpiece, List.append_assoc, Nesting.keeps_append, Nesting.run_of_blank hbefore,
    Nesting.keeps_append] at h
  exact h.2.1

theorem closed_trim (h : (Nesting.run track {} piece).Closed) :
    (Nesting.run track {} (trim piece)).Closed := by
  obtain ⟨before, after, hbefore, hafter, hpiece⟩ := exists_blanks_of_trim piece
  rw [hpiece, List.append_assoc, Nesting.run_append, Nesting.run_of_blank hbefore,
    Nesting.run_append] at h
  exact h.of_blank (Nesting.wellQuoted_run trivial) hafter

theorem Pieces.map_trim (h : Pieces track pieces) : Pieces track (pieces.map trim) where
  keeps := List.forall_mem_map.mpr fun piece hpiece => keeps_trim (h.keeps piece hpiece)
  closed := by
    rw [← List.map_dropLast]
    exact List.forall_mem_map.mpr fun piece hpiece => closed_trim (h.closed piece hpiece)

end Cutting

/-! ## The parts of a list -/

section Parts

variable {parts : List (List Char)} {part cs : List Char}

theorem dropEmptyLast_eq (parts : List (List Char)) :
    dropEmptyLast parts = if parts.getLast? = some [] then parts.dropLast else parts := by
  fun_induction dropEmptyLast parts with
  | case1 => rfl
  | case2 part hempty => simp_all
  | case3 part hempty => simp_all
  | case4 part others hothers ih =>
    obtain ⟨next, others, rfl⟩ := List.exists_cons_of_ne_nil hothers
    rw [ih, List.getLast?_cons_cons, List.dropLast_cons_of_ne_nil (List.cons_ne_nil _ _)]
    split <;> rfl

theorem pieces_topLevelParts (cs : List Char) : Pieces true (topLevelParts cs) := by
  have hpieces := (pieces_cutFrom true cs).map_trim
  rw [topLevelParts, dropEmptyLast_eq]
  split
  · exact hpieces.dropLast
  · exact hpieces

theorem trim_of_mem_topLevelParts (h : part ∈ topLevelParts cs) : trim part = part := by
  obtain ⟨piece, -, rfl⟩ := List.mem_map.mp (mem_of_mem_dropEmptyLast h)
  exact trim_trim piece

theorem topLevelParts_of_mem (h : part ∈ topLevelParts cs) (hne : part ≠ []) :
    topLevelParts part = [part] :=
  topLevelParts_of_keeps ((pieces_topLevelParts cs).keeps part h) (trim_of_mem_topLevelParts h) hne

/-- Joined by commas, trimmed parts are cut into the same parts, less an empty last one. -/
theorem Pieces.topLevelParts_intercalate (h : Pieces true parts)
    (htrim : ∀ part ∈ parts, trim part = part) :
    topLevelParts ([','].intercalate parts) = dropEmptyLast parts := by
  cases parts with
  | nil => rfl
  | cons part parts =>
    rw [topLevelParts, h.cutFrom_intercalate (List.cons_ne_nil _ _), List.map_congr_left htrim,
      List.map_id']

/-- Cutting a list is a retraction: a part that is not empty is cut no further, and the parts joined
by commas are cut into the same parts, unless an empty one comes last, which would be dropped. -/
theorem topLevelParts_retracts (cs : List Char) :
    (∀ part ∈ topLevelParts cs, part ≠ [] → topLevelParts part = [part]) ∧
      (topLevelParts ([','].intercalate (topLevelParts cs)) = topLevelParts cs ↔
        (topLevelParts cs).getLast? ≠ some []) := by
  refine ⟨fun part hpart hne => topLevelParts_of_mem hpart hne, ?_⟩
  rw [(pieces_topLevelParts cs).topLevelParts_intercalate fun part => trim_of_mem_topLevelParts,
    dropEmptyLast_eq]
  split
  · next hempty =>
    have hparts : topLevelParts cs ≠ [] := by
      intro hnil
      rw [hnil] at hempty
      cases hempty
    refine iff_of_false (fun heq => ?_) (not_not_intro hempty)
    have hlength := congrArg List.length heq
    have hpos := List.length_pos_iff.mpr hparts
    rw [List.length_dropLast] at hlength
    omega
  · next hlast => exact iff_of_true rfl hlast

/-- A list that closes a parenthesis too many and leaves a literal open. -/
theorem topLevelParts_retracts_openLiteral :
    topLevelParts "f: (A, B) -> C".toList = ["f: (A, B) -> C".toList] ∧
      topLevelParts ([','].intercalate (topLevelParts ") f: (A, B) -> C,, x = \"a, b ".toList)) =
        topLevelParts ") f: (A, B) -> C,, x = \"a, b ".toList := by
  refine ⟨?_, ?_⟩
  · exact (topLevelParts_retracts "a, f: (A, B) -> C , ".toList).1 _ (by decide) (by decide)
  · exact (topLevelParts_retracts ") f: (A, B) -> C,, x = \"a, b ".toList).2.mpr (by decide)

end Parts

end ComponentWiring.Source

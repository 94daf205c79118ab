import ComponentWiring.Proofs.Source.ListCutting
import ComponentWiring.Proofs.Source.WrittenNames
import ComponentWiring.Source.ClassHead

/-!
Parts of a text that stand by themselves. What can be read in such a part does not depend on what is
around it: the characters next to it belong to no name, no annotation and no qualified reference.
The pieces into which types and lists are cut are such parts (`Within`).
-/

namespace ComponentWiring.Source

open Text

/-! ## Characters around a part -/

section Characters

variable {c : Char}

theorem precedesHead_eq_true_iff :
    precedesHead c = true ↔ isDottedChar c = false ∧ c ≠ ':' ∧ c ≠ '@' := by
  simp only [precedesHead, isDottedChar, Bool.not_eq_true', Bool.or_eq_false_iff,
    beq_eq_false_iff_ne]
  tauto

theorem isWordChar_of_precedesHead (h : precedesHead c = true) : isWordChar c = false :=
  (Bool.or_eq_false_iff.mp (precedesHead_eq_true_iff.mp h).1).1

theorem precedesHead_of_isBlank (h : isBlank c = true) : precedesHead c = true := by
  refine precedesHead_eq_true_iff.mpr ⟨?_, ne_of_isBlank h rfl, ne_of_isBlank h rfl⟩
  rw [isDottedChar, isWordChar_of_isBlank h, Bool.false_or, beq_eq_false_iff_ne]
  exact ne_of_isBlank h rfl

end Characters

/-! ## Parts -/

/-- A part of a text with nothing next to it that could belong to it. -/
def Within (part cs : List Char) : Prop :=
  ∃ before after, cs = before ++ part ++ after ∧
    (∀ c ∈ before.getLast?, precedesHead c = true) ∧ ∀ c ∈ after.head?, precedesHead c = true

namespace Within

variable {part other cs as bs : List Char} {c : Char}

theorem refl (cs : List Char) : Within cs cs :=
  ⟨[], [], by simp, by simp, by simp⟩

theorem trans (h : Within part other) (hother : Within other cs) : Within part cs := by
  obtain ⟨before, after, rfl, hbefore, hafter⟩ := h
  obtain ⟨before', after', rfl, hbefore', hafter'⟩ := hother
  refine ⟨before' ++ before, after ++ after', by simp, fun c hc => ?_, fun c hc => ?_⟩
  · rw [List.getLast?_append, Option.mem_def, Option.or_eq_some_iff] at hc
    exact hc.elim (hbefore c) fun h => hbefore' c h.2
  · rw [List.head?_append, Option.mem_def, Option.or_eq_some_iff] at hc
    exact hc.elim (hafter c) fun h => hafter' c h.2

theorem subset (h : Within part cs) : part ⊆ cs := by
  obtain ⟨before, after, rfl, -, -⟩ := h
  exact fun c hc => List.mem_append_left _ (List.mem_append_right _ hc)

/-- The text before a separating character. -/
theorem append_cons_left (hc : precedesHead c = true) (as bs : List Char) :
    Within as (as ++ c :: bs) :=
  ⟨[], c :: bs, by simp, by simp, by simpa using hc⟩

/-- The text behind a separating character. -/
theorem append_cons_right (hc : precedesHead c = true) (as bs : List Char) :
    Within bs (as ++ c :: bs) :=
  ⟨as ++ [c], [], by simp, by simpa using hc, by simp⟩

/-- The words of a part are words of the text. -/
theorem freeOf {words : List String} (hpart : Within part cs) (h : FreeOf words cs) :
    FreeOf words part := by
  obtain ⟨before, after, rfl, hbefore, hafter⟩ := hpart
  rw [List.append_assoc] at h
  have hbehind : FreeOf words (part ++ after) := fun run hrun => h run <|
    wordRuns_subset_append (fun c hc => isWordChar_of_precedesHead (hbefore c hc)) hrun
  cases after with
  | nil => rwa [List.append_nil] at hbehind
  | cons c after =>
    exact ((freeOf_append_cons (isWordChar_of_precedesHead (hafter c rfl))).mp hbehind).1

theorem of_blanks {before after : List Char} (hbefore : isAllBlank before = true)
    (hafter : isAllBlank after = true) : Within part (before ++ part ++ after) := by
  simp only [isAllBlank, List.all_eq_true] at hbefore hafter
  exact ⟨before, after, rfl,
    fun c hc => precedesHead_of_isBlank (hbefore c (List.mem_of_getLast? hc)),
    fun c hc => precedesHead_of_isBlank (hafter c (List.mem_of_mem_head? hc))⟩

/-! ### Cutting -/

theorem trimEnd (cs : List Char) : Within (Text.trimEnd cs) cs := by
  obtain ⟨blank, hblank, hcs⟩ := exists_blank_of_trimEnd cs
  have hwithin : Within (Text.trimEnd cs) ([] ++ Text.trimEnd cs ++ blank) := of_blanks rfl hblank
  rwa [List.nil_append, ← hcs] at hwithin

theorem trim (cs : List Char) : Within (Text.trim cs) cs := by
  refine (trimEnd (trimStart cs)).trans ?_
  have hblank : isAllBlank (cs.takeWhile isBlank) = true :=
    List.all_eq_true.mpr fun c hc => List.mem_takeWhile_imp hc
  have hwithin : Within (trimStart cs) (cs.takeWhile isBlank ++ trimStart cs ++ []) :=
    of_blanks hblank rfl
  rwa [List.append_nil, trimStart, List.takeWhile_append_dropWhile] at hwithin

theorem of_mem_intercalate {pieces : List (List Char)} (hc : precedesHead c = true)
    (h : part ∈ pieces) : Within part ([c].intercalate pieces) := by
  induction pieces with
  | nil => cases h
  | cons piece pieces ih =>
    cases pieces with
    | nil =>
      obtain rfl := List.mem_singleton.mp h
      simpa using refl part
    | cons next pieces =>
      rw [List.intercalate_cons_cons, List.append_assoc, List.singleton_append]
      rcases List.mem_cons.mp h with rfl | h
      · exact append_cons_left hc _ _
      · exact (ih h).trans (append_cons_right hc _ _)

theorem of_mem_topLevelParts (h : part ∈ topLevelParts cs) : Within part cs := by
  obtain ⟨raw, hraw, rfl⟩ := List.mem_map.mp (mem_of_mem_dropEmptyLast h)
  refine (trim raw).trans ?_
  have hwithin := of_mem_intercalate (c := ',') (by decide) hraw
  rwa [intercalate_cutFrom] at hwithin

theorem of_mem_parameterParts {cs part : List Char} (h : part ∈ parameterParts cs) :
    Within part cs := by
  rw [parameterParts_eq] at h
  obtain ⟨fragment, hfragment, h⟩ := List.mem_flatMap.mp h
  have hshort := length_le_of_mem_topLevelParts hfragment
  refine Within.trans ?_ (of_mem_topLevelParts hfragment)
  unfold refinedParts at h
  split at h
  · exact List.mem_singleton.mp h ▸ refl _
  · split at h
    · next before after hcut =>
      have hlater := length_lt_of_recut? hcut
      rw [eq_append_of_recut? hcut]
      rcases List.mem_cons.mp h with rfl | h
      · exact (trim before).trans (append_cons_left (by decide) _ _)
      · exact (of_mem_parameterParts h).trans (append_cons_right (by decide) _ _)
    · exact List.mem_singleton.mp h ▸ refl _
termination_by cs.length
decreasing_by omega

/-! ### Types -/

theorem splitNullable (cs : List Char) : Within (Source.splitNullable cs).1 cs := by
  unfold Source.splitNullable
  split
  · next hmark =>
    obtain ⟨front, rfl⟩ := List.getLast?_eq_some_iff.mp hmark
    dsimp only
    split
    · exact refl _
    · rw [List.dropLast_concat]
      exact (trimEnd front).trans (append_cons_left (by decide) _ _)
  · exact refl _

theorem splitArguments (cs : List Char) : Within (Source.splitArguments cs).1 cs ∧
    ∀ inner ∈ (Source.splitArguments cs).2, Within inner cs := by
  unfold Source.splitArguments
  split
  · next head after hsplit =>
    rw [splitFirst_eq_some hsplit]
    split
    · next hlast =>
      obtain ⟨inner, rfl⟩ := List.getLast?_eq_some_iff.mp hlast
      refine ⟨append_cons_left (by decide) _ _, fun inner' hinner => ?_⟩
      obtain rfl : inner = inner' := by simpa using hinner
      exact (append_cons_left (c := '>') (by decide) inner []).trans
        (append_cons_right (by decide) _ _)
    · exact ⟨refl _, by simp⟩
  · exact ⟨refl _, by simp⟩

theorem typeHead (cs : List Char) : Within (Source.typeHead cs) cs :=
  (trim _).trans ((splitArguments _).1.trans ((splitNullable _).trans (trim cs)))

theorem of_mem_typePieces (h : part ∈ typePieces cs) : Within part cs := by
  unfold typePieces at h
  have hinside := (splitArguments (Source.splitNullable (Text.trim cs)).1).2
  revert h hinside
  cases (Source.splitArguments (Source.splitNullable (Text.trim cs)).1).2 with
  | none =>
    intro h
    cases h
  | some inner =>
    intro h hinside
    exact (of_mem_topLevelParts h).trans
      ((hinside inner rfl).trans ((splitNullable _).trans (trim cs)))

end Within

end ComponentWiring.Source

import ComponentWiring.Proofs.Source.StableParts
import ComponentWiring.Proofs.Source.WrittenAnnotations

/-!
Cutting a parameter that was cut already. A part with open angle brackets was cut in two at the first
comma behind which a parameter starts. What stands before that comma is not cut again: more text
behind a place cannot keep a parameter from starting there (`startsParameter_append`), so that an
earlier comma would have been taken. Hence no part of a parameter list is cut any further
(`parameterParts_of_mem`).
-/

namespace ComponentWiring.Source

open Text

/-! ## Where a parameter starts -/

/-- A name with a colon, behind modifiers and possibly a property word. -/
def NamedBehindWords (cs : List Char) : Prop :=
  ∃ mid last, Modified parameterModifiers cs mid ∧
    (last = mid ∨ ∃ word, wordOf? propertyWords mid = some (word, last)) ∧
      ∃ r, nameAndColon? last = some r

namespace NamedBehindWords

variable {cs : List Char}

theorem ne_nil (h : NamedBehindWords cs) : cs ≠ [] := by
  obtain ⟨mid, last, hmod, hproperty, r, hname⟩ := h
  have hlast : last <:+ cs := by
    rcases hproperty with rfl | ⟨word, hword⟩
    · exact hmod.suffix
    · exact (suffix_of_wordOf? hword).trans hmod.suffix
  rintro rfl
  rw [List.suffix_nil.mp hlast] at hname
  cases hname

theorem isWordChar_head (h : NamedBehindWords cs) : ∀ c ∈ cs.head?, isWordChar c = true := by
  obtain ⟨mid, last, hmod, hproperty, r, hname⟩ := h
  have hlast := isWordChar_head_of_nameAndColon? hname
  refine hmod.isWordChar_head (by decide) ?_
  rcases hproperty with rfl | ⟨word, hword⟩
  · exact hlast
  · exact (Modified.word hword (.none last)).isWordChar_head (by decide) hlast

theorem append (h : NamedBehindWords cs) (more : List Char) : NamedBehindWords (cs ++ more) := by
  obtain ⟨mid, last, hmod, hproperty, ⟨name, rest⟩, hname⟩ := h
  have hlast : last ≠ [] := by
    rintro rfl
    cases hname
  refine ⟨mid ++ more, last ++ more, ?_, ?_, _, nameAndColon?_append_right hname more⟩
  · refine hmod.append ?_ more
    rcases hproperty with rfl | ⟨word, hword⟩
    · exact hlast
    · rintro rfl
      exact hlast (List.suffix_nil.mp (suffix_of_wordOf? hword))
  · rcases hproperty with rfl | ⟨word, hword⟩
    · exact .inl rfl
    · exact .inr ⟨word, wordOf?_append_right hword hlast more⟩

end NamedBehindWords

theorem startsParameter_iff {cs : List Char} :
    startsParameter cs = true ↔ NamedBehindWords (annotations (trimStart cs)).2 := by
  rw [startsParameter, isSome_modifiersThen_iff]
  simp only [isSome_optionalPropertyWord_iff]
  simp only [Option.isSome_iff_exists]
  constructor
  · intro ⟨mid, hmod, hfinish⟩
    rcases hfinish with hname | ⟨word, last, hword, hname⟩
    · exact ⟨mid, mid, hmod, .inl rfl, hname⟩
    · exact ⟨mid, last, hmod, .inr ⟨word, hword⟩, hname⟩
  · intro ⟨mid, last, hmod, hproperty, hname⟩
    rcases hproperty with rfl | ⟨word, hword⟩
    · exact ⟨last, hmod, .inl hname⟩
    · exact ⟨mid, hmod, .inr ⟨word, last, hword, hname⟩⟩

/-- Where a parameter starts, it starts with any text behind. -/
theorem startsParameter_append {cs : List Char} (h : startsParameter cs = true)
    (more : List Char) : startsParameter (cs ++ more) = true := by
  rw [startsParameter_iff] at h ⊢
  obtain ⟨run, hplain, -, hrun⟩ := exists_run_of_annotations (trimStart cs)
  have hsolid : cs.dropWhile isBlank ≠ [] := by
    intro hempty
    exact h.ne_nil (List.append_eq_nil_iff.mp (hrun.symm.trans hempty)).2
  have htrim : trimStart (cs ++ more) =
      AnnotationText.runText run ++ ((annotations (trimStart cs)).2 ++ more) := by
    rw [trimStart, dropWhile_append_of_rest hsolid, ← List.append_assoc, ← hrun]
    rfl
  have hhead : ∀ c ∈ ((annotations (trimStart cs)).2 ++ more).head?, isBlank c = false ∧ c ≠ '@' := by
    intro c hc
    rw [List.head?_append_of_ne_nil _ h.ne_nil] at hc
    have hword := h.isWordChar_head c hc
    refine ⟨isBlank_of_isWordChar hword, ?_⟩
    rintro rfl
    exact Bool.false_ne_true (isWordChar_at.symm.trans hword)
  rw [htrim, annotations_runText hplain hhead]
  exact h.append more

/-! ## Parts that are cut no further -/

section Parts

variable {fragment before after part : List Char}

/-- The text before the comma at which a part was cut has no such comma itself. -/
theorem recut?_trim_of_recut? (h : recut? fragment = some (before, after)) :
    recut? (trim before) = none := by
  rw [recut?_eq, List.find?_eq_none]
  intro ⟨front, back⟩ hsplit hstart
  -- The comma would have been found in the part already.
  obtain ⟨blank, blank', hblank, -, hbefore⟩ := exists_blanks_of_trim before
  have hearlier : (blank ++ front, back ++ blank') ∈ commaSplits {} before := by
    rw [hbefore, List.append_assoc, commaSplits_append, Nesting.run_of_blank hblank,
      commaSplits_append]
    simp only [List.map_append, List.mem_append, List.mem_map]
    exact .inr (.inl ⟨_, ⟨_, hsplit, rfl⟩, rfl⟩)
  have hfragment := eq_append_of_recut? h
  obtain ⟨before', after', hfirst, hlength⟩ := exists_recut?_append hearlier
    (startsParameter_append (startsParameter_append hstart blank') (',' :: after))
  rw [← hfragment, h] at hfirst
  cases hfirst
  exact Nat.lt_irrefl _ hlength

theorem parameterParts_of_keeps (hkeeps : ({} : Nesting).Keeps true part) (htrim : trim part = part)
    (hne : part ≠ []) : parameterParts part = refinedParts part := by
  rw [parameterParts_eq, topLevelParts_of_keeps hkeeps htrim hne]
  simp

theorem refinedParts_of_recut?_eq_none (h : recut? part = none) : refinedParts part = [part] := by
  rw [refinedParts, h]
  split <;> rfl

/-- A part of a parameter list is cut no further. -/
theorem parameterParts_of_mem {cs : List Char} (h : part ∈ parameterParts cs) (hne : part ≠ []) :
    parameterParts part = [part] := by
  rw [parameterParts_eq] at h
  obtain ⟨fragment, hfragment, hpart⟩ := List.mem_flatMap.mp h
  have hkeeps := (pieces_topLevelParts cs).keeps fragment hfragment
  have htrim := trim_of_mem_topLevelParts hfragment
  by_cases hwhole : refinedParts fragment = [fragment]
  · rw [hwhole] at hpart
    obtain rfl := List.mem_singleton.mp hpart
    rw [parameterParts_of_keeps hkeeps htrim hne, hwhole]
  · obtain ⟨⟨before, after⟩, hcut⟩ : ∃ r, recut? fragment = some r := by
      rw [← Option.isSome_iff_exists, Option.isSome_iff_ne_none]
      exact fun hnone => hwhole (refinedParts_of_recut?_eq_none hnone)
    have hopen : openAngles fragment ≠ 0 := fun hclosed => hwhole (refinedParts_of_closed hclosed)
    rw [refinedParts, if_neg hopen, hcut] at hpart
    rcases List.mem_cons.mp hpart with rfl | hpart
    · rw [eq_append_of_recut? hcut, Nesting.keeps_append] at hkeeps
      rw [parameterParts_of_keeps (keeps_trim hkeeps.1) (trim_trim before) hne,
        refinedParts_of_recut?_eq_none (recut?_trim_of_recut? hcut)]
    · have hshort := length_le_of_mem_topLevelParts hfragment
      have hlater := length_lt_of_recut? hcut
      exact parameterParts_of_mem hpart hne
termination_by cs.length
decreasing_by omega

end Parts

end ComponentWiring.Source

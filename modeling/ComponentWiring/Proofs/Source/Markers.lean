import ComponentWiring.Proofs.Source.HeaderCases
import ComponentWiring.Proofs.Source.Masking
import ComponentWiring.Proofs.Source.ParameterLines
import ComponentWiring.Proofs.Source.Within
import ComponentWiring.Source.FileFindings

/-!
Texts that are free of a marker. The name of an annotation is read from the characters right behind
its sign, as far as they can belong to it, so that a text is free of a marker if its pieces are,
wherever something else separates them (`markFree_append`). Blanking out comments and inner braces
brings no marker about, and the annotations that are read off the front of a text carry none that
the text is free of (`exists_annotations_eq`).
-/

namespace ComponentWiring.Source

open Text

/-! ## The name behind a sign -/

/-- A character that can belong to an annotation: to its name, or the colon behind its target. -/
def isAnnotationChar (c : Char) : Bool :=
  isDottedChar c || c == ':'

/-- The name of the annotation whose sign stands in front of a text. -/
def nameBehindSign? (cs : List Char) : Option (List Char) :=
  (annotationName? ('@' :: cs)).map (·.1)

theorem isAnnotationChar_eq_false_iff {c : Char} :
    isAnnotationChar c = false ↔ isWordChar c = false ∧ c ≠ '.' ∧ c ≠ ':' := by
  simp [isAnnotationChar, isDottedChar, and_assoc]

theorem isAnnotationChar_of_isBlank {c : Char} (h : isBlank c = true) :
    isAnnotationChar c = false := by
  obtain ⟨hdotted, hcolon, -⟩ := precedesHead_eq_true_iff.mp (precedesHead_of_isBlank h)
  simp [isAnnotationChar, hdotted, hcolon]

section Tail

variable {tail : List Char} (htail : ∀ c ∈ tail.head?, isAnnotationChar c = false)

include htail

theorem afterUseSite_append (cs : List Char) :
    afterUseSite (cs ++ tail) = afterUseSite cs ++ tail := by
  have hword : ∀ c ∈ tail.head?, isWordChar c = false := fun c hc =>
    (isAnnotationChar_eq_false_iff.mp (htail c hc)).1
  have hcolon : ∀ rest, tail ≠ ':' :: rest := by
    rintro rest rfl
    exact absurd (htail ':' rfl) (by decide)
  rw [afterUseSite, afterUseSite, takeWhile_append_of_stop hword, dropWhile_append_of_stop hword]
  cases cs.takeWhile isWordChar with
  | nil => rfl
  | cons first word =>
    cases cs.dropWhile isWordChar with
    | nil =>
      cases tail with
      | nil => rfl
      | cons c tail =>
        have hne : c ≠ ':' := fun h => hcolon tail (by rw [h])
        simp [hne]
    | cons c rest => by_cases hc : c = ':' <;> simp [hc]

/-- Text that does not belong to an annotation only lengthens what is left behind it. -/
theorem annotationName?_append (c : Char) (cs : List Char) :
    annotationName? (c :: (cs ++ tail)) =
      (annotationName? (c :: cs)).map fun r => (r.1, r.2 ++ tail) := by
  have hdotted : ∀ c ∈ tail.head?, isDottedChar c = false := fun c hc =>
    (Bool.or_eq_false_iff.mp (htail c hc)).1
  by_cases hsign : c = '@'
  · subst hsign
    have hchosen (p : Prop) [Decidable p] (as bs : List Char) :
        (if p then as ++ tail else bs ++ tail) = (if p then as else bs) ++ tail := by
      split <;> rfl
    simp only [annotationName?, afterUseSite_append htail, takeWhile_append_of_stop hdotted,
      hchosen, dropWhile_append_of_stop hdotted]
    split_ifs <;> rfl
  · simp [annotationName?, hsign]

theorem nameBehindSign?_append (cs : List Char) :
    nameBehindSign? (cs ++ tail) = nameBehindSign? cs := by
  rw [nameBehindSign?, annotationName?_append htail, nameBehindSign?, Option.map_map]
  rfl

theorem annotationNames_append (cs : List Char) :
    annotationNames (cs ++ tail) = annotationNames cs ++ annotationNames tail :=
  map_value_occurrences_append (annotationName?_append htail) cs

end Tail

/-- Only the characters that can belong to an annotation decide about its name. -/
theorem nameBehindSign?_congr {cs cs' : List Char}
    (h : cs.takeWhile isAnnotationChar = cs'.takeWhile isAnnotationChar) :
    nameBehindSign? cs = nameBehindSign? cs' := by
  have hshort (cs : List Char) :
      nameBehindSign? cs = nameBehindSign? (cs.takeWhile isAnnotationChar) := by
    conv_lhs => rw [← List.takeWhile_append_dropWhile (p := isAnnotationChar) (l := cs)]
    exact nameBehindSign?_append head?_dropWhile_eq_false _
  rw [hshort cs, h, ← hshort cs']

/-! ## Texts without a marker -/

/-- No annotation in the text has the simple name. -/
def MarkFree (marker : String) (cs : List Char) : Prop :=
  ∀ before after, cs = before ++ '@' :: after →
    ∀ name ∈ nameBehindSign? after, afterLast '.' name ≠ marker.toList

/-- The annotations of a text are named behind its signs. -/
theorem mem_annotationNames_iff {cs name : List Char} :
    name ∈ annotationNames cs ↔
      ∃ before after, cs = before ++ '@' :: after ∧ nameBehindSign? after = some name := by
  constructor
  · intro h
    obtain ⟨found, hfound, rfl⟩ := List.mem_map.mp h
    obtain ⟨before, after, rfl, hread⟩ := exists_of_mem_occurrences hfound
    cases after with
    | nil => cases hread
    | cons c after =>
      by_cases hsign : c = '@'
      · subst hsign
        exact ⟨before, after, rfl, by rw [nameBehindSign?, hread, Option.map_some]⟩
      · simp [annotationName?, hsign] at hread
  · rintro ⟨before, after, rfl, hname⟩
    obtain ⟨⟨_, left⟩, hread, rfl⟩ := Option.map_eq_some_iff.mp hname
    rw [annotationNames_append (by simp; decide), List.mem_append]
    refine .inr ?_
    rw [annotationNames, occurrences, occurrencesFrom, hread]
    exact List.mem_cons_self

theorem carriesMarker_eq_false_iff {texts : List (List Char)} {marker : String} :
    carriesMarker texts marker = false ↔ ∀ text ∈ texts, MarkFree marker text := by
  simp only [carriesMarker, List.any_eq_false, List.any_eq_true, decide_eq_true_eq, not_exists,
    not_and, mem_annotationNames_iff, MarkFree, Option.mem_def]
  constructor
  · intro h text htext before after heq name hname
    exact h text htext name ⟨before, after, heq, hname⟩
  · rintro h text htext name ⟨before, after, heq, hname⟩
    exact h text htext before after heq name hname

instance (marker : String) (cs : List Char) : Decidable (MarkFree marker cs) :=
  decidable_of_iff (carriesMarker [cs] marker = false) (by simp [carriesMarker_eq_false_iff])

section MarkFree

variable {marker : String} {as bs cs : List Char} {c : Char}

theorem markFree_append (hbs : ∀ c ∈ bs.head?, isAnnotationChar c = false) :
    MarkFree marker (as ++ bs) ↔ MarkFree marker as ∧ MarkFree marker bs := by
  constructor
  · refine fun h => ⟨?_, ?_⟩
    · rintro before after rfl name hname
      rw [← nameBehindSign?_append hbs] at hname
      exact h before (after ++ bs) (by simp) name hname
    · rintro before after rfl name hname
      exact h (as ++ before) after (by simp) name hname
  · rintro ⟨has, hbs'⟩ before after heq name hname
    rcases List.append_eq_append_iff.mp heq with ⟨between, rfl, rfl⟩ | ⟨between, rfl, hsign⟩
    · exact hbs' between after rfl name hname
    · cases between with
      | nil => exact hbs' [] after hsign.symm name hname
      | cons d between =>
        rw [List.cons_append] at hsign
        obtain ⟨rfl, rfl⟩ := List.cons.inj hsign
        rw [nameBehindSign?_append hbs] at hname
        exact has before between rfl name hname

theorem markFree_of_not_mem (h : '@' ∉ cs) : MarkFree marker cs := by
  rintro before after rfl
  simp at h

theorem MarkFree.suffix (h : MarkFree marker bs) (hsuffix : as <:+ bs) : MarkFree marker as := by
  obtain ⟨front, rfl⟩ := hsuffix
  rintro before after rfl name hname
  exact h (front ++ before) after (by simp) name hname

/-- A character that belongs to no annotation separates annotations. -/
theorem markFree_append_cons (hc : precedesHead c = true) :
    MarkFree marker (as ++ c :: bs) ↔ MarkFree marker as ∧ MarkFree marker bs := by
  obtain ⟨hdotted, hcolon, hsign⟩ := precedesHead_eq_true_iff.mp hc
  have hcons : MarkFree marker (c :: bs) ↔ MarkFree marker bs := by
    refine ⟨fun h => h.suffix (List.suffix_cons c bs), fun h before after heq => ?_⟩
    cases before with
    | nil => exact absurd (List.cons.inj heq).1 hsign
    | cons d before => exact h before after (List.cons.inj heq).2
  rw [markFree_append (by simp [isAnnotationChar, hdotted, hcolon]), hcons]

theorem MarkFree.within {part : List Char} (h : MarkFree marker cs) (hpart : Within part cs) :
    MarkFree marker part := by
  obtain ⟨before, after, rfl, -, hafter⟩ := hpart
  have hboundary : ∀ c ∈ after.head?, isAnnotationChar c = false := fun c hc => by
    obtain ⟨hdotted, hcolon, -⟩ := precedesHead_eq_true_iff.mp (hafter c hc)
    simp [isAnnotationChar, hdotted, hcolon]
  exact ((markFree_append hboundary).mp h).1.suffix (List.suffix_append before part)

/-! ### Blanked texts -/

/-- Blanking out comments brings no marker about. -/
theorem MarkFree.mask (h : MarkFree marker cs) (state : CommentState) :
    MarkFree marker (state.mask cs) := by
  intro before after heq name hname
  obtain ⟨before', cs', literal, rfl, rfl, -⟩ := CommentState.exists_of_mask_eq heq rfl
  refine h before' cs' rfl name ?_
  rwa [nameBehindSign?_congr (CommentState.takeWhile_mask (by decide) (by decide)
    literal cs').1] at hname

/-- Nor does blanking out inner braces. -/
theorem MarkFree.ownMembers (h : MarkFree marker cs) : MarkFree marker (ownMembers cs) := by
  intro before after heq name hname
  obtain ⟨before', cs', rfl, -, -, rfl⟩ :=
    exists_of_directMembersFrom_eq heq rfl (by decide) (by decide)
  refine h before' cs' rfl name ?_
  rwa [nameBehindSign?_congr (takeWhile_directMembersFrom (by decide) _ cs')] at hname

end MarkFree

/-! ## Annotations at the front of a text -/

/-- An annotation ends where blanks follow it. -/
theorem exists_gap_of_annotation? {cs text rest : List Char}
    (h : annotation? cs = some (text, rest)) :
    ∃ gap, cs = text ++ (gap ++ rest) ∧ gap ≠ [] ∧ isAllBlank gap = true := by
  unfold annotation? annotationWith? at h
  split at h
  · next behind =>
    simp only at h
    split at h
    · cases h
    · obtain ⟨after, hafter, heq⟩ := Option.map_eq_some_iff.mp h
      cases heq
      obtain ⟨gap, hgap, hne, hblank⟩ := exists_gap_of_afterBlanks? hafter
      obtain ⟨front, hfront⟩ := calc
        afterPlainArguments ((afterUseSite behind).dropWhile isDottedChar)
          <:+ (afterUseSite behind).dropWhile isDottedChar := afterPlainArguments_suffix _
        _ <:+ afterUseSite behind := List.dropWhile_suffix _
        _ <:+ behind := afterUseSite_suffix behind
        _ <:+ '@' :: behind := List.suffix_cons _ _
      refine ⟨gap, ?_, hne, hblank⟩
      rw [← hgap, ← hfront, List.length_append, Nat.add_sub_cancel, List.take_left]
  · cases h

/-- The annotations at the front of a text, with the blanks behind them, make up a stretch of it,
and none of them has a marker that the stretch is free of, whatever follows it. -/
theorem exists_annotations_eq (cs : List Char) :
    ∃ front, cs = front ++ (annotations cs).2 ∧ (∀ c ∈ front.getLast?, isBlank c = true) ∧
      ∀ marker tail, MarkFree marker (front ++ tail) →
        carriesMarker (annotations cs).1 marker = false := by
  have hfuel : ∀ fuel cs, ∃ front, cs = front ++ (repeatReader annotation? fuel cs).2 ∧
      (∀ c ∈ front.getLast?, isBlank c = true) ∧
      ∀ marker tail, MarkFree marker (front ++ tail) →
        ∀ text ∈ (repeatReader annotation? fuel cs).1, MarkFree marker text := by
    intro fuel
    induction fuel with
    | zero => exact fun cs => ⟨[], rfl, by simp, by simp [repeatReader]⟩
    | succ fuel ih =>
      intro cs
      cases hread : annotation? cs with
      | none => exact ⟨[], by simp [repeatReader, hread], by simp, by simp [repeatReader, hread]⟩
      | some r =>
        obtain ⟨text, rest⟩ := r
        obtain ⟨gap, hcs, hne, hblank⟩ := exists_gap_of_annotation? hread
        obtain ⟨front, hrest, hlast, hfree⟩ := ih rest
        refine ⟨text ++ (gap ++ front), ?_, ?_, fun marker tail hmarker => ?_⟩
        · simp only [repeatReader, hread, List.append_assoc, ← hrest]
          exact hcs
        · rw [← List.append_assoc]
          exact isBlank_of_getLast?_append hne hblank hlast
        · have hboundary : ∀ c ∈ (gap ++ (front ++ tail)).head?, isAnnotationChar c = false := by
            intro c hc
            rw [List.head?_append_of_ne_nil _ hne] at hc
            exact isAnnotationChar_of_isBlank
              (List.all_eq_true.mp hblank c (List.mem_of_mem_head? hc))
          rw [List.append_assoc, List.append_assoc, markFree_append hboundary] at hmarker
          simp only [repeatReader, hread, List.forall_mem_cons]
          exact ⟨hmarker.1, hfree marker tail (hmarker.2.suffix (List.suffix_append gap _))⟩
  obtain ⟨front, hcs, hlast, hfree⟩ := hfuel cs.length cs
  exact ⟨front, hcs, hlast, fun marker tail hmarker =>
    carriesMarker_eq_false_iff.mpr (hfree marker tail hmarker)⟩

/-- Annotations at the front of a text that is free of a marker do not carry it. -/
theorem carriesMarker_annotations {marker : String} {cs : List Char} (h : MarkFree marker cs) :
    carriesMarker (annotations cs).1 marker = false := by
  obtain ⟨front, hcs, -, hfree⟩ := exists_annotations_eq cs
  exact hfree marker (annotations cs).2 (hcs ▸ h)

/-! ## The properties of a class -/

variable {marker : String} {cs : List Char}

/-- What is cut out between delimiters, and what follows them. -/
theorem MarkFree.stands {openMark closeMark : Char} {offset : Nat} {stretch : Stretch}
    (h : MarkFree marker cs) (hne : openMark ≠ closeMark) (hopen : precedesHead openMark = true)
    (hclose : precedesHead closeMark = true) (hstands : stretch.Stands openMark closeMark offset cs) :
    MarkFree marker stretch.text := by
  obtain ⟨front, rest, left, rfl, hcut, -⟩ := hstands
  rw [enclosed?_eq_some hne hcut, markFree_append_cons hopen, markFree_append_cons hclose] at h
  exact h.2.1

/-- A header whose constructor and body are free of a marker. -/
structure Header.MarkFree (marker : String) (header : Header) : Prop where
  constructor : ∀ inside visibility, header.shape = .primary inside visibility →
    Source.MarkFree marker inside.text
  body : ∀ body ∈ header.body, Source.MarkFree marker body.text

/-- A header is free of the markers that its text is free of. -/
theorem Header.MarkFree.read (h : Source.MarkFree marker cs) (offset : Nat) :
    (Header.read offset cs).MarkFree marker where
  constructor inside visibility heq := h.stands (by decide) (by decide) (by decide)
    ((Header.placed_read offset cs).constructor inside visibility heq)
  body body hmem := h.stands (by decide) (by decide) (by decide)
    ((Header.placed_read offset cs).body body hmem)

theorem annotations_of_parameterText? {part : List Char} {p : ParameterText}
    (h : parameterText? part = some p) : p.annotations = (annotations part).1 := by
  obtain ⟨_, -, heq⟩ := Option.bind_eq_some_iff.mp h
  cases heq
  rfl

theorem annotations_of_property? {previous : Option Char} {r : PropertyText × List Char}
    (h : property? previous cs = some r) : r.1.annotations = (annotations cs).1 := by
  obtain ⟨-, h⟩ := Option.ite_none_right_eq_some.mp h
  obtain ⟨_, -, h⟩ := Option.bind_eq_some_iff.mp h
  obtain ⟨_, -, h⟩ := Option.bind_eq_some_iff.mp h
  simp only at h
  split at h <;> exact Option.some.inj h ▸ rfl

namespace FileContext

variable {file : FileContext} {owner : String}

theorem constructorProperties_eq_nil {inside : Stretch}
    (h : MarkFree propertyMarker inside.text) : file.constructorProperties owner inside = [] := by
  refine List.filterMap_eq_nil_iff.mpr fun ⟨part, offset⟩ hpart => ?_
  have hmem := mem_parameterParts_of_mem_parametersWithOffsets hpart
  simp only
  split
  · next p hread =>
    rw [annotations_of_parameterText? hread,
      carriesMarker_annotations (h.within (.of_mem_parameterParts hmem)), Bool.and_false,
      if_neg Bool.false_ne_true]
  · rfl

theorem bodyProperties_eq_nil {body : Stretch} (h : MarkFree propertyMarker body.text) :
    file.bodyProperties owner body = [] := by
  refine List.filterMap_eq_nil_iff.mpr fun found hfound => ?_
  obtain ⟨before, after, heq, hread⟩ := exists_of_mem_occurrences hfound
  simp only
  rw [annotations_of_property? hread,
    carriesMarker_annotations (h.ownMembers.suffix ⟨before, heq.symm⟩), if_neg Bool.false_ne_true]

/-- Behind a head that no marker of properties follows, no property is marked. -/
theorem properties_eq_nil {found : Occurrence ClassHead}
    (h : MarkFree propertyMarker found.rest) : (file.findings found).properties = [] := by
  have hheader := Header.MarkFree.read h found.stop
  simp only [findings, List.append_eq_nil_iff]
  constructor
  · split
    · next inside visibility hshape =>
      exact constructorProperties_eq_nil (hheader.constructor _ _ hshape)
    · rfl
  · split
    · next body hbody => exact bodyProperties_eq_nil (hheader.body _ hbody)
    · rfl

end FileContext

end ComponentWiring.Source

import ComponentWiring.Proofs.Text.Words
import ComponentWiring.Source.Token

/-!
Annotations. Two readers differ in the arguments that they skip: one takes arguments without inner
parentheses, the other takes everything up to the first closing parenthesis. Where the first one
reads an annotation the second reads the same.
-/

namespace ComponentWiring.Source

open Text

theorem annotationWith?_of_head {skip : List Char → List Char} {cs : List Char}
    (h : '@' ∉ cs.head?) : annotationWith? skip cs = none := by
  unfold annotationWith?
  split
  · simp at h
  · rfl

theorem annotations_of_head {cs : List Char} (h : '@' ∉ cs.head?) : annotations cs = ([], cs) :=
  readAll_eq_of_none (annotationWith?_of_head h)

theorem dropWhile_closing {cs after : List Char}
    (h : cs.dropWhile (fun c => c != '(' && c != ')') = ')' :: after) :
    cs.dropWhile (· != ')') = ')' :: after := by
  induction cs with
  | nil => simp at h
  | cons c cs ih =>
    rw [List.dropWhile_cons] at h ⊢
    by_cases hclose : c = ')'
    · subst hclose
      simpa using h
    · have hopen : c ≠ '(' := by
        rintro rfl
        simp at h
      rw [if_pos (by simp [hopen, hclose])] at h
      rw [if_pos (by simpa using hclose)]
      exact ih h

/-- Arguments without inner parentheses end at the first closing one. -/
theorem afterArguments_of_afterPlainArguments {cs rest : List Char}
    (h : afterBlanks? (afterPlainArguments cs) = some rest) :
    afterArguments cs = afterPlainArguments cs := by
  unfold afterPlainArguments afterArguments at *
  cases cs with
  | nil => rfl
  | cons c cs =>
    by_cases hopen : c = '('
    · subst hopen
      simp only at h ⊢
      cases hplain : cs.dropWhile (fun c => c != '(' && c != ')') with
      | nil =>
        simp [hplain, afterBlanks?, show isBlank '(' = false from rfl] at h
      | cons stop after =>
        by_cases hclose : stop = ')'
        · subst hclose
          simp [dropWhile_closing hplain]
        · simp [hplain, hclose, afterBlanks?, show isBlank '(' = false from rfl] at h
    · simp [hopen]

theorem annotationWith?_of_annotation? {cs : List Char} {r : List Char × List Char}
    (h : annotation? cs = some r) : annotationWith? afterArguments cs = some r := by
  unfold annotation? annotationWith? at *
  split at h
  · next rest =>
    simp only at h ⊢
    split at h
    · cases h
    · next hnamed =>
      rw [if_neg hnamed]
      obtain ⟨after, hafter, -⟩ := Option.map_eq_some_iff.mp h
      rw [afterArguments_of_afterPlainArguments hafter]
      exact h
  · cases h

/-- A plain annotation: a marker with blanks behind it. -/
theorem annotation?_marker {marker : List Char} {c : Char} (hne : marker ≠ [])
    (hmarker : ∀ d ∈ marker, isWordChar d = true) (hc : isBlank c = true) (more : List Char) :
    annotation? ('@' :: (marker ++ c :: more)) = some ('@' :: marker, trimStart more) := by
  have hword : isWordChar c = false := isWordChar_of_isBlank hc
  have hsite : afterUseSite (marker ++ c :: more) = marker ++ c :: more := by
    rw [afterUseSite, takeWhile_append_of_head hmarker (by simpa using hword),
      dropWhile_append_of_head hmarker (by simpa using hword)]
    split
    · next heq => exact absurd (List.cons.inj heq).1 (ne_of_isBlank hc rfl)
    · rfl
  have hdotted : ∀ d ∈ marker, isDottedChar d = true :=
    fun d hd => by simp [isDottedChar, hmarker d hd]
  have hdot : isDottedChar c = false := by
    rw [isDottedChar, hword, Bool.false_or, beq_eq_false_iff_ne]
    exact ne_of_isBlank hc rfl
  have htake : (marker ++ c :: more).takeWhile isDottedChar = marker :=
    takeWhile_append_of_head hdotted (by simpa using hdot)
  have hdrop : (marker ++ c :: more).dropWhile isDottedChar = c :: more :=
    dropWhile_append_of_head hdotted (by simpa using hdot)
  have harguments : afterPlainArguments (c :: more) = c :: more := by
    rw [afterPlainArguments]
    exact fun rest heq => ne_of_isBlank hc rfl (List.cons.inj heq).1
  have hblanks : afterBlanks? (c :: more) = some (trimStart more) := if_pos hc
  simp only [annotation?, annotationWith?, hsite, htake, hdrop, harguments, hblanks]
  have hlength : ('@' :: (marker ++ c :: more)).length - (c :: more).length =
      ('@' :: marker).length := by
    simp only [List.length_cons, List.length_append]
    omega
  rw [if_neg (by simpa using hne), Option.map_some, hlength, ← List.cons_append, List.take_left]

/-! ## Nothing is skipped but what is read -/

theorem afterUseSite_suffix (cs : List Char) : afterUseSite cs <:+ cs := by
  unfold afterUseSite
  split
  · next h =>
    exact ((List.suffix_cons _ _).trans (h ▸ List.dropWhile_suffix _))
  · exact List.suffix_refl cs

theorem afterPlainArguments_suffix (cs : List Char) : afterPlainArguments cs <:+ cs := by
  unfold afterPlainArguments
  split
  · split
    · next h =>
      have hrest := (List.suffix_cons _ _).trans (h ▸ List.dropWhile_suffix _)
      exact hrest.trans (List.suffix_cons _ _)
    · exact List.suffix_refl _
  · exact List.suffix_refl cs

/-- An annotation ends with a blank, and what it leaves stands at the end of the text. -/
theorem exists_of_annotation? {cs : List Char} {r : List Char × List Char}
    (h : annotation? cs = some r) :
    ∃ left, left <:+ cs ∧ afterBlanks? left = some r.2 := by
  unfold annotation? annotationWith? at h
  split at h
  · next rest =>
    simp only at h
    split at h
    · cases h
    · obtain ⟨after, hafter, rfl⟩ := Option.map_eq_some_iff.mp h
      refine ⟨_, ?_, hafter⟩
      calc afterPlainArguments ((afterUseSite rest).dropWhile isDottedChar)
          <:+ (afterUseSite rest).dropWhile isDottedChar := afterPlainArguments_suffix _
        _ <:+ afterUseSite rest := List.dropWhile_suffix _
        _ <:+ rest := afterUseSite_suffix rest
        _ <:+ '@' :: rest := List.suffix_cons _ _
  · cases h

theorem length_lt_of_annotation? (cs : List Char) (r : List Char × List Char)
    (h : annotation? cs = some r) : r.2.length < cs.length := by
  obtain ⟨left, hleft, hrest⟩ := exists_of_annotation? h
  exact (afterBlanks?_eq_some hrest).2.trans_le hleft.length_le

theorem annotations_suffix (cs : List Char) : (annotations cs).2 <:+ cs := by
  refine readAll_induction (p := (· <:+ cs)) (fun as r has h => ?_) (List.suffix_refl cs)
  obtain ⟨left, hleft, hrest⟩ := exists_of_annotation? h
  exact ((afterBlanks?_suffix hrest).trans hleft).trans has

end ComponentWiring.Source

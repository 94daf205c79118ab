import Mathlib.Data.List.Basic
import Mathlib.Data.List.TakeWhile
import ComponentWiring.Text.Blank
import ComponentWiring.Text.Occurrences
import ComponentWiring.Text.Segments

/-!
Laws of the small text functions: taking a stretch of characters off the front, trimming, dividing
at blanks, cutting at a separator, and repeating a reader. Each is stated for a text that is put
together from the parts that the function is to find, since that is how the laws are used: on
printed text.
-/

namespace ComponentWiring.Text

/-! ## Statements about all characters of a text

They are decided by going through the text, and never through all the characters there are. -/

instance decidableForallMem (cs : List Char) (p : Char → Prop) [DecidablePred p] :
    Decidable (∀ c ∈ cs, p c) :=
  List.decidableBAll p cs

instance decidableForallMemOption (found : Option Char) (p : Char → Prop) [DecidablePred p] :
    Decidable (∀ c ∈ found, p c) :=
  Option.decidableForallMem found

/-! ## Stretches of characters -/

/-- A stretch ends where a character of another class follows, or the text ends. -/
theorem takeWhile_append_of_head {p : Char → Bool} {as bs : List Char} (has : ∀ c ∈ as, p c = true)
    (hbs : ∀ c ∈ bs.head?, p c = false) : (as ++ bs).takeWhile p = as := by
  rw [List.takeWhile_append_of_pos has]
  cases bs with
  | nil => simp
  | cons c rest => simp [hbs c rfl]

theorem dropWhile_append_of_head {p : Char → Bool} {as bs : List Char} (has : ∀ c ∈ as, p c = true)
    (hbs : ∀ c ∈ bs.head?, p c = false) : (as ++ bs).dropWhile p = bs := by
  rw [List.dropWhile_append_of_pos has]
  cases bs with
  | nil => simp
  | cons c rest => simp [hbs c rfl]

/-- Text that does not go on with characters of the class only lengthens what is left. -/
theorem takeWhile_append_of_stop {p : Char → Bool} {bs : List Char}
    (hbs : ∀ c ∈ bs.head?, p c = false) (as : List Char) :
    (as ++ bs).takeWhile p = as.takeWhile p := by
  induction as with
  | nil => exact takeWhile_append_of_head (by simp) hbs
  | cons a as ih => simp only [List.cons_append, List.takeWhile_cons, ih]

theorem dropWhile_append_of_stop {p : Char → Bool} {bs : List Char}
    (hbs : ∀ c ∈ bs.head?, p c = false) (as : List Char) :
    (as ++ bs).dropWhile p = as.dropWhile p ++ bs := by
  induction as with
  | nil => exact dropWhile_append_of_head (by simp) hbs
  | cons a as ih =>
    simp only [List.cons_append, List.dropWhile_cons, ih]
    split <;> rfl

/-- A stretch that ends before the text does ends there with more text behind as well. -/
theorem takeWhile_append_of_rest {p : Char → Bool} {as : List Char} (has : as.dropWhile p ≠ [])
    (bs : List Char) : (as ++ bs).takeWhile p = as.takeWhile p := by
  induction as with
  | nil => exact absurd rfl has
  | cons a as ih =>
    rw [List.cons_append, List.takeWhile_cons, List.takeWhile_cons]
    split
    · next ha => rw [ih (by rwa [List.dropWhile_cons_of_pos ha] at has)]
    · rfl

theorem dropWhile_append_of_rest {p : Char → Bool} {as : List Char} (has : as.dropWhile p ≠ [])
    (bs : List Char) : (as ++ bs).dropWhile p = as.dropWhile p ++ bs := by
  rw [List.dropWhile_append, if_neg (by simpa using has)]

/-- Behind a stretch stands a character of another class. -/
theorem head?_dropWhile_eq_false {p : Char → Bool} {cs : List Char} :
    ∀ c ∈ (cs.dropWhile p).head?, p c = false := by
  intro c hc
  simpa [Option.mem_def.mp hc] using List.head?_dropWhile_not p cs

/-- A character of a text that is put together stands in the first part or in the second. -/
theorem exists_of_append_eq_append_cons {as bs before after : List Char} {c : Char}
    (h : as ++ bs = before ++ c :: after) :
    (∃ more, as = before ++ c :: more) ∨ ∃ more, before = as ++ more ∧ bs = more ++ c :: after := by
  rcases List.append_eq_append_iff.mp h with ⟨more, hbefore, hbs⟩ | ⟨more, has, htail⟩
  · exact .inr ⟨more, hbefore, hbs⟩
  · cases more with
    | nil =>
      rw [List.append_nil] at has
      exact .inr ⟨[], by simp [has], htail.symm⟩
    | cons d more =>
      obtain ⟨rfl, -⟩ := List.cons.inj htail
      exact .inl ⟨more, has⟩

instance transIsSuffix :
    Trans (List.IsSuffix (α := Char)) (List.IsSuffix (α := Char)) List.IsSuffix :=
  ⟨List.IsSuffix.trans⟩

/-! ## Trimming -/

/-- A blank is none of the other characters. -/
theorem ne_of_isBlank {c d : Char} (hc : isBlank c = true) (hd : isBlank d = false) : c ≠ d := by
  rintro rfl
  exact Bool.false_ne_true (hd.symm.trans hc)

theorem isAllBlank_cons {c : Char} {cs : List Char} :
    isAllBlank (c :: cs) = true ↔ isBlank c = true ∧ isAllBlank cs = true := by
  rw [isAllBlank, List.all_cons, Bool.and_eq_true, isAllBlank]

theorem isAllBlank_blank : isAllBlank [' '] = true := rfl

/-- A text that is not empty and neither starts nor ends with a blank. -/
structure Trimmed (cs : List Char) : Prop where
  ne_nil : cs ≠ []
  head : ∀ c ∈ cs.head?, isBlank c = false
  last : ∀ c ∈ cs.getLast?, isBlank c = false

instance (cs : List Char) : Decidable (Trimmed cs) :=
  decidable_of_iff
    (cs ≠ [] ∧ cs.head?.all (!isBlank ·) = true ∧ cs.getLast?.all (!isBlank ·) = true) (by
      simp only [Option.all_eq_true, Bool.not_eq_true']
      exact ⟨fun h => ⟨h.1, h.2.1, h.2.2⟩, fun h => ⟨h.ne_nil, h.head, h.last⟩⟩)

theorem trimStart_append_of_blank {as bs : List Char} (has : isAllBlank as = true) :
    trimStart (as ++ bs) = trimStart bs :=
  List.dropWhile_append_of_pos (by simpa [isAllBlank] using has)

theorem trimStart_eq_self {cs : List Char} (h : ∀ c ∈ cs.head?, isBlank c = false) :
    trimStart cs = cs := by
  cases cs with
  | nil => rfl
  | cons c rest => simp [trimStart, h c rfl]

theorem trimStart_append_of_solid {as : List Char} (has : isAllBlank as = false) (bs : List Char) :
    trimStart (as ++ bs) = trimStart as ++ bs := by
  rw [trimStart, List.dropWhile_append, if_neg, trimStart]
  rw [List.isEmpty_iff, List.dropWhile_eq_nil_iff]
  simpa [isAllBlank] using has

theorem trimStart_eq_nil_iff {cs : List Char} : trimStart cs = [] ↔ isAllBlank cs = true := by
  simp [trimStart, isAllBlank, List.dropWhile_eq_nil_iff]

theorem trimStart_append_cons {c : Char} (hc : isBlank c = false) (as bs : List Char) :
    trimStart (as ++ c :: bs) = trimStart as ++ c :: bs := by
  cases has : isAllBlank as with
  | true =>
    rw [trimStart_append_of_blank has, trimStart_eq_nil_iff.mpr has, List.nil_append]
    exact trimStart_eq_self (by simpa using hc)
  | false => exact trimStart_append_of_solid has _

theorem trimStart_cons_of_blank {c : Char} (hc : isBlank c = true) (cs : List Char) :
    trimStart (c :: cs) = trimStart cs := by
  simp [trimStart, hc]

theorem afterBlanks?_append {cs rest : List Char} (h : afterBlanks? cs = some rest)
    (hrest : rest ≠ []) (more : List Char) : afterBlanks? (cs ++ more) = some (rest ++ more) := by
  cases cs with
  | nil => cases h
  | cons c cs =>
    rw [afterBlanks?] at h
    split at h
    · next hc =>
      cases h
      rw [List.cons_append, afterBlanks?, if_pos hc, trimStart, dropWhile_append_of_rest hrest]
      rfl
    · cases h

theorem afterBlanks?_eq_some {cs rest : List Char} (h : afterBlanks? cs = some rest) :
    rest = trimStart cs ∧ rest.length < cs.length := by
  cases cs with
  | nil => simp [afterBlanks?] at h
  | cons c cs =>
    rw [afterBlanks?] at h
    split at h
    · next hc =>
      cases h
      refine ⟨(trimStart_cons_of_blank hc cs).symm, Nat.lt_succ_of_le ?_⟩
      exact (List.dropWhile_sublist _).length_le
    · cases h

/-- The text behind blanks has a blank right before it. -/
theorem exists_of_afterBlanks? {cs rest : List Char} (h : afterBlanks? cs = some rest) :
    ∃ before c, isBlank c = true ∧ cs = before ++ c :: rest := by
  cases cs with
  | nil => simp [afterBlanks?] at h
  | cons c cs =>
    rw [afterBlanks?] at h
    split at h
    · next hc =>
      cases h
      induction cs generalizing c with
      | nil => exact ⟨[], c, hc, rfl⟩
      | cons d cs ih =>
        cases hd : isBlank d with
        | true =>
          obtain ⟨before, b, hb, heq⟩ := ih d hd
          refine ⟨c :: before, b, hb, ?_⟩
          rw [trimStart_cons_of_blank hd, List.cons_append, ← heq]
        | false =>
          refine ⟨[], c, hc, ?_⟩
          rw [trimStart_eq_self (by simpa using hd), List.nil_append]
    · cases h

theorem exists_gap_of_afterBlanks? {cs rest : List Char} (h : afterBlanks? cs = some rest) :
    ∃ gap, cs = gap ++ rest ∧ gap ≠ [] ∧ isAllBlank gap = true := by
  obtain ⟨rfl, hlength⟩ := afterBlanks?_eq_some h
  refine ⟨cs.takeWhile isBlank, List.takeWhile_append_dropWhile.symm, fun hempty => ?_,
    List.all_eq_true.mpr fun _ => List.mem_takeWhile_imp⟩
  have hsame : cs.takeWhile isBlank ++ trimStart cs = cs := List.takeWhile_append_dropWhile
  rw [hempty, List.nil_append] at hsame
  rw [hsame] at hlength
  exact Nat.lt_irrefl _ hlength

/-- Behind a gap, a text that ends with a blank if it is not empty still does. -/
theorem isBlank_of_getLast?_append {as gap bs : List Char} (hgap : gap ≠ [])
    (hblank : isAllBlank gap = true) (hbs : ∀ c ∈ bs.getLast?, isBlank c = true) :
    ∀ c ∈ (as ++ gap ++ bs).getLast?, isBlank c = true := by
  intro c hc
  rw [List.getLast?_append, Option.mem_def, Option.or_eq_some_iff] at hc
  rcases hc with hc | ⟨-, hc⟩
  · exact hbs c hc
  · rw [List.getLast?_append_of_ne_nil _ hgap] at hc
    exact List.all_eq_true.mp hblank c (List.mem_of_getLast? hc)

theorem trimStart_suffix (cs : List Char) : trimStart cs <:+ cs :=
  List.dropWhile_suffix _

theorem afterBlanks?_suffix {cs rest : List Char} (h : afterBlanks? cs = some rest) : rest <:+ cs :=
  (afterBlanks?_eq_some h).1 ▸ trimStart_suffix cs

theorem trimEnd_of_blank {cs : List Char} (h : isAllBlank cs = true) : trimEnd cs = [] := by
  induction cs with
  | nil => rfl
  | cons c rest ih =>
    rw [isAllBlank_cons] at h
    rw [trimEnd, ih h.2]
    simp [h.1]

theorem trimEnd_append_of_blank {as bs : List Char} (hbs : isAllBlank bs = true) :
    trimEnd (as ++ bs) = trimEnd as := by
  induction as with
  | nil => exact trimEnd_of_blank hbs
  | cons a as ih => rw [List.cons_append, trimEnd, ih, trimEnd]

theorem trimEnd_eq_self {cs : List Char} (h : ∀ c ∈ cs.getLast?, isBlank c = false) :
    trimEnd cs = cs := by
  induction cs with
  | nil => rfl
  | cons c rest ih =>
    cases rest with
    | nil => simp [trimEnd, h c rfl]
    | cons d rest => rw [trimEnd, ih (by simpa using h)]

/-- Up to something solid, nothing is taken off the end. -/
theorem trimEnd_append_cons {c : Char} (hc : isBlank c = false) (as bs : List Char) :
    trimEnd (as ++ c :: bs) = as ++ c :: trimEnd bs := by
  induction as with
  | nil =>
    rw [List.nil_append, trimEnd]
    split
    · next hnil => simp [hc, hnil]
    · rfl
  | cons a as ih =>
    rw [List.cons_append, trimEnd, ih]
    cases as <;> rfl

theorem Trimmed.trim_eq {cs : List Char} (h : Trimmed cs) : trim cs = cs := by
  rw [trim, trimStart_eq_self h.head, trimEnd_eq_self h.last]

theorem trim_cons_of_blank {c : Char} (hc : isBlank c = true) (cs : List Char) :
    trim (c :: cs) = trim cs := by
  rw [trim, trimStart_cons_of_blank hc, trim]

/-- With more behind it, a trimmed text still does not start with a blank. -/
theorem Trimmed.head_append {as : List Char} (h : Trimmed as) (bs : List Char) :
    ∀ c ∈ (as ++ bs).head?, isBlank c = false := by
  rw [List.head?_append_of_ne_nil _ h.ne_nil]
  exact h.head

theorem Trimmed.trimStart_append {as : List Char} (h : Trimmed as) (bs : List Char) :
    trimStart (as ++ bs) = as ++ bs :=
  trimStart_eq_self (h.head_append bs)

/-- Trimming takes blanks off at both ends and nothing else. -/
theorem Trimmed.trim_padded {cs before after : List Char} (h : Trimmed cs)
    (hbefore : isAllBlank before = true) (hafter : isAllBlank after = true) :
    trim (before ++ cs ++ after) = cs := by
  rw [trim, List.append_assoc, trimStart_append_of_blank hbefore, h.trimStart_append,
    trimEnd_append_of_blank hafter, trimEnd_eq_self h.last]

/-- A text stays trimmed with more in front that does not start with a blank. -/
theorem Trimmed.append_left {as bs : List Char} (hbs : Trimmed bs) (has : as ≠ [])
    (hhead : ∀ c ∈ as.head?, isBlank c = false) : Trimmed (as ++ bs) where
  ne_nil := by simp [has]
  head := by rwa [List.head?_append_of_ne_nil _ has]
  last := by rw [List.getLast?_append_of_ne_nil _ hbs.ne_nil]; exact hbs.last

theorem Trimmed.intercalate {sep : List Char} {parts : List (List Char)} (hne : parts ≠ [])
    (h : ∀ part ∈ parts, Trimmed part) : Trimmed (sep.intercalate parts) := by
  induction parts with
  | nil => exact absurd rfl hne
  | cons part parts ih =>
    obtain ⟨hpart, hparts⟩ := List.forall_mem_cons.mp h
    cases parts with
    | nil => rwa [List.intercalate_singleton]
    | cons next parts =>
      rw [List.intercalate_cons_cons]
      exact (ih (by simp) hparts).append_left (by simp [hpart.ne_nil]) (hpart.head_append sep)

/-- Trimming takes blanks off the end. -/
theorem exists_blank_of_trimEnd (cs : List Char) :
    ∃ blank, isAllBlank blank = true ∧ cs = trimEnd cs ++ blank := by
  induction cs with
  | nil => exact ⟨[], rfl, rfl⟩
  | cons c cs ih =>
    obtain ⟨blank, hblank, hcs⟩ := ih
    rw [trimEnd]
    split
    · next hempty =>
      rw [hempty, List.nil_append] at hcs
      subst hcs
      split
      · next hc =>
        refine ⟨c :: cs, ?_, rfl⟩
        rw [isAllBlank, List.all_cons, hc]
        exact hblank
      · exact ⟨cs, hblank, rfl⟩
    · exact ⟨blank, hblank, congrArg (c :: ·) hcs⟩

/-- Trimming takes off blanks at both ends. -/
theorem exists_blanks_of_trim (cs : List Char) : ∃ before after, isAllBlank before = true ∧
    isAllBlank after = true ∧ cs = before ++ trim cs ++ after := by
  obtain ⟨after, hafter, hcs⟩ := exists_blank_of_trimEnd (trimStart cs)
  refine ⟨cs.takeWhile isBlank, after, ?_, hafter, ?_⟩
  · exact List.all_eq_true.mpr fun c hc => List.mem_takeWhile_imp hc
  · rw [List.append_assoc, trim, ← hcs, trimStart, List.takeWhile_append_dropWhile]

/-- Blanks behind a text do not matter to trimming. -/
theorem trim_append_of_blank {bs : List Char} (hbs : isAllBlank bs = true) (as : List Char) :
    trim (as ++ bs) = trim as := by
  cases has : isAllBlank as with
  | true =>
    rw [trim, trimStart_append_of_blank has, trim, trimStart_eq_nil_iff.mpr has,
      trimStart_eq_nil_iff.mpr hbs]
  | false => rw [trim, trimStart_append_of_solid has, trimEnd_append_of_blank hbs, trim]

/-- What is left of trimming does not end with a blank. -/
theorem getLast?_trimEnd_eq_false {cs : List Char} :
    ∀ c ∈ (trimEnd cs).getLast?, isBlank c = false := by
  induction cs with
  | nil => simp [trimEnd]
  | cons c cs ih =>
    rw [trimEnd]
    split
    · split
      · simp
      · next hc => simpa using hc
    · next hrest =>
      obtain ⟨d, rest, hcons⟩ := List.exists_cons_of_ne_nil hrest
      rw [hcons] at ih ⊢
      rwa [List.getLast?_cons_cons]

theorem trimmed_trim {cs : List Char} (hne : trim cs ≠ []) : Trimmed (trim cs) where
  ne_nil := hne
  head := by
    obtain ⟨blank, -, hcs⟩ := exists_blank_of_trimEnd (trimStart cs)
    have hhead : (trimStart cs).head? = (trim cs).head? := by
      rw [hcs]
      exact List.head?_append_of_ne_nil _ hne
    exact hhead ▸ head?_dropWhile_eq_false
  last := getLast?_trimEnd_eq_false

/-- A trimmed text has no blanks left to trim. -/
theorem trim_trim (cs : List Char) : trim (trim cs) = trim cs := by
  rcases eq_or_ne (trim cs) [] with hempty | hne
  · rw [hempty]
    rfl
  · exact (trimmed_trim hne).trim_eq

/-! ## The words between blanks -/

theorem words_cons_of_blank {c : Char} (hc : isBlank c = true) (cs : List Char) :
    words (c :: cs) = words cs :=
  if_pos hc

theorem words_trimStart (cs : List Char) : words (trimStart cs) = words cs := by
  induction cs with
  | nil => rfl
  | cons c cs ih =>
    cases hc : isBlank c with
    | true => rw [trimStart_cons_of_blank hc, ih, words_cons_of_blank hc]
    | false => rw [trimStart_eq_self (by simpa using hc)]

/-- A text without blanks is one word. -/
theorem words_of_forall {cs : List Char} (hne : cs ≠ []) (h : ∀ c ∈ cs, isBlank c = false) :
    words cs = [cs] := by
  induction cs with
  | nil => exact absurd rfl hne
  | cons c rest ih =>
    rw [List.forall_mem_cons] at h
    cases rest with
    | nil => simp [words, h.1]
    | cons d rest =>
      rw [words, if_neg (by simp [h.1]), ih (by simp) h.2]
      simp [h.2]

/-- A word ends at a blank. -/
theorem words_append_of_blank {cs : List Char} (hne : cs ≠ []) (h : ∀ c ∈ cs, isBlank c = false)
    {b : Char} (hb : isBlank b = true) (rest : List Char) :
    words (cs ++ b :: rest) = cs :: words rest := by
  induction cs with
  | nil => exact absurd rfl hne
  | cons c cs ih =>
    rw [List.forall_mem_cons] at h
    cases cs with
    | nil => simp [words, h.1, hb]
    | cons d cs =>
      have hrest := ih (by simp) h.2
      rw [List.cons_append] at hrest
      rw [List.cons_append, List.cons_append, words, if_neg (by simp [h.1])]
      simp [hrest, h.2]

/-! ## Cutting at a separator -/

theorem splitFirst_append {sep : Char} {as : List Char} (has : sep ∉ as) (bs : List Char) :
    splitFirst sep (as ++ sep :: bs) = some (as, bs) := by
  induction as with
  | nil => simp [splitFirst]
  | cons a as ih =>
    rw [List.mem_cons, not_or] at has
    simp [splitFirst, Ne.symm has.1, ih has.2]

theorem splitFirst_eq_none {sep : Char} {cs : List Char} (h : sep ∉ cs) :
    splitFirst sep cs = none := by
  induction cs with
  | nil => rfl
  | cons c rest ih =>
    rw [List.mem_cons, not_or] at h
    simp [splitFirst, Ne.symm h.1, ih h.2]

theorem not_mem_of_splitFirst {sep : Char} {cs : List Char} (h : splitFirst sep cs = none) :
    sep ∉ cs := by
  intro hmem
  obtain ⟨before, after, rfl, hbefore⟩ := List.eq_append_cons_of_mem hmem
  rw [splitFirst_append hbefore] at h
  cases h

theorem splitLast_eq_none {sep : Char} {cs : List Char} (h : sep ∉ cs) :
    splitLast sep cs = none := by
  induction cs with
  | nil => rfl
  | cons c rest ih =>
    rw [List.mem_cons, not_or] at h
    simp [splitLast, Ne.symm h.1, ih h.2]

theorem splitLast_append {sep : Char} {bs : List Char} (hbs : sep ∉ bs) (as : List Char) :
    splitLast sep (as ++ sep :: bs) = some (as, bs) := by
  induction as with
  | nil => simp [splitLast, splitLast_eq_none hbs]
  | cons a as ih => simp [splitLast, ih]

/-- A text that has a separator can be cut at the last one. -/
theorem exists_splitLast_of_mem {sep : Char} {cs : List Char} (h : sep ∈ cs) :
    ∃ before after, splitLast sep cs = some (before, after) := by
  induction cs with
  | nil => cases h
  | cons c cs ih =>
    rw [splitLast]
    cases hrest : splitLast sep cs with
    | some r => exact ⟨_, _, rfl⟩
    | none =>
      rcases List.mem_cons.mp h with rfl | hmem
      · exact ⟨[], cs, if_pos rfl⟩
      · obtain ⟨before, after, hsome⟩ := ih hmem
        rw [hrest] at hsome
        cases hsome

/-- Behind the last separator there is none. -/
theorem not_mem_of_splitLast {sep : Char} {cs before after : List Char}
    (h : splitLast sep cs = some (before, after)) : sep ∉ after := by
  induction cs generalizing before with
  | nil => cases h
  | cons c cs ih =>
    rw [splitLast] at h
    cases hrest : splitLast sep cs with
    | some r =>
      rw [hrest] at h
      cases h
      exact ih hrest
    | none =>
      rw [hrest] at h
      simp only [Option.ite_none_right_eq_some, Option.some.injEq, Prod.mk.injEq] at h
      obtain ⟨-, -, rfl⟩ := h
      intro hmem
      obtain ⟨front, back, hsome⟩ := exists_splitLast_of_mem hmem
      rw [hrest] at hsome
      cases hsome

theorem not_mem_afterLast (sep : Char) (cs : List Char) : sep ∉ afterLast sep cs := by
  unfold afterLast
  cases hsplit : splitLast sep cs with
  | some r => exact not_mem_of_splitLast hsplit
  | none =>
    intro hmem
    obtain ⟨front, back, hsome⟩ := exists_splitLast_of_mem hmem
    rw [hsplit] at hsome
    cases hsome

/-- Blanks in front only lengthen the first part. -/
theorem splitFirst_trimStart {sep : Char} (hsep : isBlank sep = false) (cs : List Char) :
    (splitFirst sep (trimStart cs)).map Prod.snd = (splitFirst sep cs).map Prod.snd := by
  induction cs with
  | nil => rfl
  | cons c rest ih =>
    cases hc : isBlank c with
    | true =>
      have hne : c ≠ sep := by
        rintro rfl
        simp [hc] at hsep
      rw [trimStart_cons_of_blank hc, ih, splitFirst, if_neg hne]
      simp [Function.comp_def]
    | false => rw [trimStart_eq_self (by simpa using hc)]

theorem splitAtText_eq_some {needle cs before after : List Char}
    (h : splitAtText needle cs = some (before, after)) : cs = before ++ needle ++ after := by
  induction cs generalizing before with
  | nil =>
    rw [splitAtText] at h
    split at h
    · next hneedle =>
      cases h
      simpa using hneedle
    · cases h
  | cons c rest ih =>
    rw [splitAtText] at h
    split at h
    · next hprefix =>
      obtain ⟨more, hmore⟩ := List.isPrefixOf_iff_prefix.mp hprefix
      cases h
      rw [← hmore, List.drop_left]
      rfl
    · obtain ⟨⟨b, a⟩, hb, he⟩ := Option.map_eq_some_iff.mp h
      cases he
      rw [ih hb]
      rfl

/-- A text that does not occur is not found. -/
theorem splitAtText_eq_none {needle cs : List Char} (h : ¬needle <:+: cs) :
    splitAtText needle cs = none := by
  cases hsplit : splitAtText needle cs with
  | none => rfl
  | some r => exact absurd ⟨r.1, r.2, (splitAtText_eq_some hsplit).symm⟩ h

/-- A text is found where it stands if its first character does not come before. -/
theorem splitAtText_append {needle as : List Char} (hne : needle ≠ [])
    (has : ∀ c ∈ needle.head?, c ∉ as) (bs : List Char) :
    splitAtText needle (as ++ (needle ++ bs)) = some (as, bs) := by
  obtain ⟨d, needle, rfl⟩ := List.exists_cons_of_ne_nil hne
  induction as with
  | nil =>
    have hprefix : (d :: needle).isPrefixOf (d :: (needle ++ bs)) = true :=
      List.isPrefixOf_iff_prefix.mpr ⟨bs, rfl⟩
    rw [List.nil_append, List.cons_append, splitAtText, if_pos hprefix, ← List.cons_append,
      List.drop_left]
  | cons a as ih =>
    obtain ⟨hda, hdas⟩ := not_or.mp (List.mem_cons.not.mp (has d rfl))
    have hhere : (d :: needle).isPrefixOf (a :: (as ++ (d :: needle ++ bs))) = false := by
      rw [List.isPrefixOf, beq_false_of_ne hda, Bool.false_and]
    rw [List.cons_append, splitAtText, hhere, ih (by simpa using hdas)]
    rfl

theorem beforeText_eq_self {needle cs : List Char} (h : ¬needle <:+: cs) :
    beforeText needle cs = cs := by
  rw [beforeText, splitAtText_eq_none h]

theorem prefix_append_cons_iff {needle as bs : List Char} {c : Char} (hc : c ∉ needle) :
    needle <+: as ++ c :: bs ↔ needle <+: as := by
  refine ⟨fun h => ?_, fun h => h.trans (List.prefix_append _ _)⟩
  rcases List.prefix_or_prefix_of_prefix h (List.prefix_append as (c :: bs)) with h' | ⟨more, rfl⟩
  · exact h'
  · rw [List.prefix_append_right_inj] at h
    cases more with
    | nil => simp
    | cons d more =>
      obtain ⟨rest, hrest⟩ := h
      obtain ⟨rfl, -⟩ := List.cons.inj hrest
      exact absurd (by simp) hc

/-- A text that is not in a first part, and without the character behind it, is looked for behind
that character. -/
theorem splitAtText_append_cons {needle as : List Char} {c : Char} (hc : c ∉ needle)
    (h : ¬needle <:+: as) (bs : List Char) :
    splitAtText needle (as ++ c :: bs) =
      (splitAtText needle bs).map fun r => (as ++ c :: r.1, r.2) := by
  have hnone {as : List Char} (h : ¬needle <:+: as) :
      needle.isPrefixOf (as ++ c :: bs) = false := by
    rw [Bool.eq_false_iff, ne_eq, List.isPrefixOf_iff_prefix, prefix_append_cons_iff hc]
    exact fun hprefix => h hprefix.isInfix
  induction as with
  | nil =>
    have hhere := hnone h
    rw [List.nil_append] at hhere ⊢
    rw [splitAtText, hhere]
    rfl
  | cons a as ih =>
    have hhere := hnone h
    rw [List.cons_append] at hhere ⊢
    rw [splitAtText, hhere, ih fun hinfix => h (List.infix_cons hinfix)]
    simp [Function.comp_def]

theorem beforeText_append_cons {needle as : List Char} {c : Char} (hc : c ∉ needle)
    (h : ¬needle <:+: as) (bs : List Char) :
    beforeText needle (as ++ c :: bs) = as ++ c :: beforeText needle bs := by
  rw [beforeText, beforeText, splitAtText_append_cons hc h]
  cases splitAtText needle bs <;> rfl

/-- A text is found no later than where it stands. -/
theorem length_beforeText_le {needle as : List Char} (h : needle <:+: as) (bs : List Char) :
    (beforeText needle (as ++ bs)).length + needle.length ≤ as.length := by
  obtain ⟨before, after, rfl⟩ := h
  induction before with
  | nil =>
    cases needle with
    | nil =>
      have hempty : ∀ cs, beforeText [] cs = [] := fun cs => by
        cases cs <;> simp [beforeText, splitAtText]
      simp [hempty]
    | cons a needle =>
      simp [beforeText, splitAtText]
  | cons b before ih =>
    simp only [List.cons_append, List.length_cons]
    rw [beforeText, splitAtText]
    split_ifs with hprefix
    · simp
      omega
    · rw [beforeText] at ih
      revert ih
      cases splitAtText needle (before ++ needle ++ after ++ bs) with
      | none => intro ih; simp at ih ⊢; omega
      | some r => intro ih; simp at ih ⊢; omega

theorem dropText?_eq_some {needle cs rest : List Char} :
    dropText? needle cs = some rest ↔ cs = needle ++ rest := by
  unfold dropText?
  constructor
  · intro h
    split at h
    · next hprefix =>
      obtain ⟨more, rfl⟩ := List.isPrefixOf_iff_prefix.mp hprefix
      rw [List.drop_left] at h
      rw [Option.some.inj h]
    · cases h
  · rintro rfl
    rw [if_pos (List.isPrefixOf_iff_prefix.mpr (List.prefix_append _ _)), List.drop_left]

theorem mem_of_mem_intercalate {α : Type} {sep : List α} {parts : List (List α)} {a : α}
    (h : a ∈ sep.intercalate parts) : a ∈ sep ∨ ∃ part ∈ parts, a ∈ part := by
  induction parts with
  | nil => cases h
  | cons part parts ih =>
    cases parts with
    | nil => exact .inr ⟨part, List.mem_cons_self, by rwa [List.intercalate_singleton] at h⟩
    | cons next parts =>
      rw [List.intercalate_cons_cons, List.mem_append, List.mem_append] at h
      rcases h with (h | h) | h
      · exact .inr ⟨part, List.mem_cons_self, h⟩
      · exact .inl h
      · exact (ih h).imp id fun ⟨other, hother, hmem⟩ =>
          ⟨other, List.mem_cons_of_mem _ hother, hmem⟩

/-! ## Repeating a reader -/

section Repeat

variable {α : Type} {step step' : List Char → Option (α × List Char)}

theorem repeatReader_eq_of_none {cs : List Char} (h : step cs = none) (fuel : Nat) :
    repeatReader step fuel cs = ([], cs) := by
  cases fuel with
  | zero => rfl
  | succ fuel => simp [repeatReader, h]

theorem readAll_eq_of_none {cs : List Char} (h : step cs = none) : readAll step cs = ([], cs) :=
  repeatReader_eq_of_none h _

theorem readAll_eq_singleton {value : α} {cs rest : List Char} (hne : cs ≠ [])
    (h : step cs = some (value, rest)) (hstop : step rest = none) :
    readAll step cs = ([value], rest) := by
  obtain ⟨c, cs, rfl⟩ := List.exists_cons_of_ne_nil hne
  simp only [readAll, List.length_cons, repeatReader, h, repeatReader_eq_of_none hstop]

/-- A reader that reads whatever another one reads, and nothing where that one stops, reads the same
in a row. -/
theorem repeatReader_eq_repeatReader (hstep : ∀ cs r, step cs = some r → step' cs = some r)
    {fuel : Nat} {cs : List Char} (hstop : step' (repeatReader step fuel cs).2 = none) :
    repeatReader step' fuel cs = repeatReader step fuel cs := by
  induction fuel generalizing cs with
  | zero => rfl
  | succ fuel ih =>
    cases h : step cs with
    | none =>
      rw [repeatReader_eq_of_none h] at hstop ⊢
      exact repeatReader_eq_of_none hstop _
    | some r =>
      obtain ⟨value, rest⟩ := r
      simp only [repeatReader, h] at hstop
      simp only [repeatReader, h, hstep cs _ h, ih hstop]

theorem readAll_eq_readAll (hstep : ∀ cs r, step cs = some r → step' cs = some r) {cs : List Char}
    (hstop : step' (readAll step cs).2 = none) : readAll step' cs = readAll step cs :=
  repeatReader_eq_repeatReader hstep hstop

/-- A step that takes at least one character is not repeated more often than the text is long. -/
theorem repeatReader_of_length_le (hshort : ∀ cs r, step cs = some r → r.2.length < cs.length)
    {fuel : Nat} {cs : List Char} (hfuel : cs.length ≤ fuel) :
    repeatReader step fuel cs = readAll step cs := by
  have hagree : ∀ fuel fuel' cs, cs.length ≤ fuel → cs.length ≤ fuel' →
      repeatReader step fuel cs = repeatReader step fuel' cs := by
    intro fuel
    induction fuel with
    | zero =>
      intro fuel' cs hfuel _
      obtain rfl : cs = [] := List.eq_nil_of_length_eq_zero (by omega)
      have hstop : step [] = none := by
        cases h : step [] with
        | none => rfl
        | some r => exact absurd (hshort [] r h) (by simp)
      rw [repeatReader_eq_of_none hstop, repeatReader_eq_of_none hstop]
    | succ fuel ih =>
      intro fuel' cs hfuel hfuel'
      cases h : step cs with
      | none => rw [repeatReader_eq_of_none h, repeatReader_eq_of_none h]
      | some r =>
        have hr := hshort cs r h
        obtain ⟨fuel', rfl⟩ : ∃ n, fuel' = n + 1 := ⟨fuel' - 1, by omega⟩
        simp only [repeatReader, h, ih fuel' r.2 (by omega) (by omega)]
  exact hagree fuel cs.length cs hfuel le_rfl

/-- A step that can be taken is the first one. -/
theorem readAll_of_some (hshort : ∀ cs r, step cs = some r → r.2.length < cs.length)
    {cs rest : List Char} {value : α} (h : step cs = some (value, rest)) :
    readAll step cs = (value :: (readAll step rest).1, (readAll step rest).2) := by
  have hrest := hshort cs _ h
  obtain ⟨n, hn⟩ : ∃ n, cs.length = n + 1 := ⟨cs.length - 1, by omega⟩
  have hfuel : repeatReader step n rest = readAll step rest :=
    repeatReader_of_length_le hshort (by dsimp only at hrest; omega)
  rw [readAll, hn]
  simp only [repeatReader, h, hfuel]

/-- If more text behind only lengthens what a step leaves, the same holds of the step in a row. -/
theorem readAll_append (hshort : ∀ cs r, step cs = some r → r.2.length < cs.length)
    {tail : List Char} (hstep : ∀ cs, step (cs ++ tail) = (step cs).map fun r => (r.1, r.2 ++ tail))
    (cs : List Char) :
    readAll step (cs ++ tail) = ((readAll step cs).1, (readAll step cs).2 ++ tail) := by
  have hfuel : ∀ fuel cs, repeatReader step fuel (cs ++ tail) =
      ((repeatReader step fuel cs).1, (repeatReader step fuel cs).2 ++ tail) := by
    intro fuel
    induction fuel with
    | zero => exact fun _ => rfl
    | succ fuel ih =>
      intro cs
      cases h : step cs with
      | none => simp [repeatReader, hstep, h]
      | some r => simp [repeatReader, hstep, h, ih]
  rw [readAll, hfuel, repeatReader_of_length_le hshort (by simp)]

/-- Whatever holds of a text and is kept by each step holds of what is left. -/
theorem readAll_induction {p : List Char → Prop} (hkeep : ∀ cs r, p cs → step cs = some r → p r.2)
    {cs : List Char} (hcs : p cs) : p (readAll step cs).2 := by
  have hfuel : ∀ fuel cs, p cs → p (repeatReader step fuel cs).2 := by
    intro fuel
    induction fuel with
    | zero => exact fun cs hcs => hcs
    | succ fuel ih =>
      intro cs hcs
      cases h : step cs with
      | none => rwa [repeatReader_eq_of_none h]
      | some r =>
        simp only [repeatReader, h]
        exact ih _ (hkeep cs r hcs h)
  exact hfuel _ cs hcs

theorem readAll_suffix (hstep : ∀ cs r, step cs = some r → r.2 <:+ cs) (cs : List Char) :
    (readAll step cs).2 <:+ cs :=
  readAll_induction (p := (· <:+ cs)) (fun _ r hcs hr => (hstep _ r hr).trans hcs)
    (List.suffix_refl cs)

end Repeat

end ComponentWiring.Text

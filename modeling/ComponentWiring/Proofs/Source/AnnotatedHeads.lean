import ComponentWiring.Proofs.Source.ClassHeads
import ComponentWiring.Proofs.Source.MemberPlaces
import ComponentWiring.Proofs.Source.WrittenAnnotations

/-!
Heads of classes and properties as they are written, behind annotations. A reader that comes to the
words of a head has read a run of plain annotations up to these words (`exists_run_before`), and it
reads every such run together with the head (`classHead?_run`, `locatedProperty?_run`). Annotations
and words cannot be taken for each other, since an annotation has a sign in front of its name and
blanks or a parenthesis behind it (`EndsAnnotation.unique`).
-/

namespace ComponentWiring.Source

open Text AnnotationText

/-! ## Words -/

/-- Words that are written in word characters. -/
def AreWords (words : List String) : Prop :=
  ∀ word ∈ words, word.toList ≠ [] ∧ ∀ c ∈ word.toList, isWordChar c = true

instance (words : List String) : Decidable (AreWords words) :=
  inferInstanceAs (Decidable (∀ word ∈ words, _ ∧ _))

/-- A text of words with blanks between them, which starts with a word. -/
structure WordsOnly (cs : List Char) : Prop where
  chars : ∀ c ∈ cs, isWordChar c = true ∨ isBlank c = true
  head : ∀ c ∈ cs.head?, isBlank c = false

section Words

variable {allowed words : List String} {cs rest : List Char}

theorem WordsOnly.not_mem {c : Char} (h : WordsOnly cs) (hword : isWordChar c = false)
    (hblank : isBlank c = false) : c ∉ cs := by
  intro hc
  rcases h.chars c hc with h | h
  · exact Bool.false_ne_true (hword.symm.trans h)
  · exact Bool.false_ne_true (hblank.symm.trans h)

theorem WordsOnly.append_word {front word gap : List Char} (h : WordsOnly front) (hne : word ≠ [])
    (hword : ∀ c ∈ word, isWordChar c = true) (hgap : isAllBlank gap = true) :
    WordsOnly (front ++ (word ++ gap)) where
  chars := by
    intro c hc
    rcases List.mem_append.mp hc with hc | hc
    · exact h.chars c hc
    · exact (List.mem_append.mp hc).imp (hword c) (List.all_eq_true.mp hgap c)
  head := by
    cases front with
    | nil =>
      rw [List.nil_append, List.head?_append_of_ne_nil _ hne]
      exact fun c hc => isBlank_of_isWordChar (hword c (List.mem_of_mem_head? hc))
    | cons d front => exact h.head

/-- A word with blanks behind it is read. -/
theorem wordOf?_append {word : String} {gap : List Char} (hmem : word ∈ allowed)
    (hword : ∀ c ∈ word.toList, isWordChar c = true) (hgap : gap ≠ [])
    (hblank : isAllBlank gap = true) (hrest : ∀ c ∈ rest.head?, isBlank c = false) :
    wordOf? allowed (word.toList ++ (gap ++ rest)) = some (word, rest) := by
  obtain ⟨b, gap, rfl⟩ := List.exists_cons_of_ne_nil hgap
  rw [isAllBlank_cons] at hblank
  have hstop : ∀ c ∈ (b :: (gap ++ rest)).head?, isWordChar c = false := by
    simpa using isWordChar_of_isBlank hblank.1
  rw [List.cons_append, wordOf?_eq_some, takeWhile_append_of_head hword hstop,
    dropWhile_append_of_head hword hstop, String.ofList_toList]
  refine ⟨rfl, hmem, ?_⟩
  rw [afterBlanks?, if_pos hblank.1, trimStart_append_of_blank hblank.2, trimStart_eq_self hrest]

/-- In front of what stands behind words there are only words. -/
theorem exists_words_of_behindWords? (hallowed : AreWords allowed) (hwords : AreWords words)
    (h : behindWords? allowed words cs = some rest) : ∃ front, cs = front ++ rest ∧
      WordsOnly front := by
  have hmodifiers : ∃ front, cs = front ++ (readAll (wordOf? allowed) cs).2 ∧ WordsOnly front := by
    refine readAll_induction (p := fun rest => ∃ front, cs = front ++ rest ∧ WordsOnly front) ?_
      ⟨[], rfl, by simp, by simp⟩
    rintro left ⟨word, rest⟩ ⟨front, hcs, hfront⟩ hread
    obtain ⟨hmem, gap, -, hblank, rfl⟩ := exists_of_wordOf? hread
    refine ⟨front ++ (word.toList ++ gap), by simp [hcs], ?_⟩
    exact hfront.append_word (hallowed word hmem).1 (hallowed word hmem).2 hblank
  obtain ⟨front, hcs, hfront⟩ := hmodifiers
  obtain ⟨⟨word, left⟩, hread, heq⟩ := Option.map_eq_some_iff.mp h
  obtain rfl : left = rest := heq
  obtain ⟨hmem, gap, -, hblank, hleft⟩ := exists_of_wordOf? hread
  refine ⟨front ++ (word.toList ++ gap), by rw [hcs, hleft]; simp, ?_⟩
  exact hfront.append_word (hwords word hmem).1 (hwords word hmem).2 hblank

/-- Words at the end of a text start in front of the blanks that it ends with. -/
theorem WordsOnly.exists_of_append_blank {front gap after : List Char} {c : Char}
    (h : WordsOnly (c :: after)) (hgap : isAllBlank gap = true)
    (heq : cs ++ gap = front ++ c :: after) :
    ∃ between, cs = front ++ c :: between ∧ after = between ++ gap := by
  have hc : c ∉ gap := fun hc =>
    Bool.false_ne_true ((h.head c rfl).symm.trans (List.all_eq_true.mp hgap c hc))
  rcases exists_of_append_eq_append_cons heq with ⟨between, rfl⟩ | ⟨between, -, rfl⟩
  · exact ⟨between, rfl, by simpa using heq.symm⟩
  · exact absurd (by simp) hc

end Words

/-! ## Where annotations end -/

/-- A text that ends with an annotation: with blanks or a parenthesis, and where it ends with words,
these belong to a name. -/
structure EndsAnnotation (cs : List Char) : Prop where
  last : ∃ c ∈ cs.getLast?, isBlank c = true ∨ c = ')'
  apart : ∀ before c after, cs = before ++ c :: after → WordsOnly (c :: after) →
    ∃ d ∈ before.getLast?, isBlank d = false ∧ d ≠ ')'

/-- Annotations in front of words end at one place. -/
theorem EndsAnnotation.unique {cs cs' front front' : List Char} (h : EndsAnnotation cs)
    (h' : EndsAnnotation cs') (hfront : WordsOnly front) (hfront' : WordsOnly front')
    (heq : cs ++ front = cs' ++ front') : cs = cs' := by
  -- If one of them went on, it would end with words behind a blank or a parenthesis.
  have hgoes {cs cs' front front' between : List Char} (h : EndsAnnotation cs)
      (h' : EndsAnnotation cs') (hfront : WordsOnly front) (hcs : cs' = cs ++ between)
      (hbetween : front = between ++ front') : cs = cs' := by
    cases between with
    | nil => rw [hcs, List.append_nil]
    | cons c between =>
      subst hbetween
      have hwords : WordsOnly (c :: between) :=
        ⟨fun d hd => hfront.chars d (List.mem_append_left _ hd), hfront.head⟩
      obtain ⟨d, hd, hblank, hclose⟩ := h'.apart cs c between hcs hwords
      obtain ⟨e, he, hlast⟩ := h.last
      cases Option.mem_unique hd he
      rcases hlast with hlast | hlast
      · exact absurd (hblank.symm.trans hlast) Bool.false_ne_true
      · exact absurd hlast hclose
  rcases List.append_eq_append_iff.mp heq with ⟨between, hcs, hbetween⟩ | ⟨between, hcs, hbetween⟩
  · exact hgoes h h' hfront hcs hbetween
  · exact (hgoes h' h hfront' hcs hbetween).symm

/-- The characters of a name, and of a target in front of it. -/
theorem isAnnotationChar_of_mem (a : AnnotationText) {c : Char}
    (hc : c ∈ siteText a.target ++ a.name) : isAnnotationChar c = true := by
  rcases List.mem_append.mp hc with hc | hc
  · cases htarget : a.target with
    | none => simp [htarget, siteText] at hc
    | some word =>
      rw [htarget, siteText] at hc
      rcases List.mem_append.mp hc with hc | hc
      · simp [isAnnotationChar, isDottedChar, (a.target_word word htarget).2 c hc]
      · simp [isAnnotationChar, List.mem_singleton.mp hc]
  · simp [isAnnotationChar, a.name_dotted c hc]

theorem apart_of_isAnnotationChar {c : Char} (h : isAnnotationChar c = true) :
    isBlank c = false ∧ c ≠ ')' := by
  constructor
  · by_contra hblank
    rw [isAnnotationChar_of_isBlank (by simpa using hblank)] at h
    cases h
  · rintro rfl
    exact absurd h (by decide)

theorem getLast?_text_of_arguments (before : List Char) {a : AnnotationText} {inside : List Char}
    (h : a.arguments = some inside) : (before ++ a.text).getLast? = some ')' := by
  have htext : before ++ a.text =
      (before ++ '@' :: (siteText a.target ++ (a.name ++ '(' :: inside))) ++ [')'] := by
    simp [AnnotationText.text, h, parenthesized]
  rw [htext, List.getLast?_concat]

/-- An annotation ends where blanks stand behind it, or its arguments end. -/
theorem endsAnnotation_append (before : List Char) {a : AnnotationText}
    (ha : a.gap ≠ [] ∨ a.arguments ≠ none) : EndsAnnotation (before ++ (a.text ++ a.gap)) where
  last := by
    rw [← List.append_assoc]
    by_cases hgap : a.gap = []
    · obtain ⟨inside, harguments⟩ :=
        Option.ne_none_iff_exists'.mp (ha.resolve_left (not_not_intro hgap))
      rw [hgap, List.append_nil]
      exact ⟨')', getLast?_text_of_arguments before harguments, .inr rfl⟩
    · rw [List.getLast?_append_of_ne_nil _ hgap, List.getLast?_eq_some_getLast hgap]
      exact ⟨_, rfl, .inl (List.all_eq_true.mp a.gap_blank _ (List.getLast_mem hgap))⟩
  apart := by
    intro front c after heq hwords
    rw [← List.append_assoc] at heq
    obtain ⟨between, htext, rfl⟩ := hwords.exists_of_append_blank a.gap_blank heq
    have hnot {d : Char} (hword : isWordChar d = false) (hblank : isBlank d = false) :
        d ∉ c :: between :=
      fun hd => hwords.not_mem hword hblank (List.mem_append_left a.gap hd)
    cases harguments : a.arguments with
    | some inside =>
      exfalso
      have hlast := getLast?_text_of_arguments before harguments
      rw [htext, List.getLast?_append_of_ne_nil _ (List.cons_ne_nil _ _)] at hlast
      exact hnot (by decide) (by decide) (List.mem_of_getLast? hlast)
    | none =>
      have hchars : front ++ c :: between = before ++ '@' :: (siteText a.target ++ a.name) := by
        rw [← htext]
        simp [AnnotationText.text, harguments, parenthesized]
      -- The words start inside the name, and in front of them stands the sign or more of the name.
      rcases exists_of_append_eq_append_cons hchars with ⟨more, rfl⟩ | ⟨more, -, hmore⟩
      · have hname : more ++ c :: between = siteText a.target ++ a.name := by simpa using hchars
        have hne : '@' :: more ≠ [] := List.cons_ne_nil _ _
        rw [List.getLast?_append_of_ne_nil _ hne, List.getLast?_eq_some_getLast hne]
        refine ⟨_, rfl, ?_⟩
        rcases List.mem_cons.mp (List.getLast_mem hne) with hsign | hmem
        · rw [hsign]
          decide
        · exact apart_of_isAnnotationChar
            (isAnnotationChar_of_mem a (hname ▸ List.mem_append_left _ hmem))
      · exact absurd (hmore ▸ by simp) (@hnot '@' (by decide) (by decide))

/-- Annotations one behind the other that stop. -/
def Stops (run : List AnnotationText) : Prop :=
  ∃ a ∈ run.getLast?, a.gap ≠ [] ∨ a.arguments ≠ none

theorem endsAnnotation_run (before : List Char) {run : List AnnotationText} (h : Stops run) :
    EndsAnnotation (before ++ runText run) := by
  obtain ⟨a, ha, hstop⟩ := h
  obtain ⟨init, rfl⟩ : ∃ init, run = init ++ [a] := List.getLast?_eq_some_iff.mp ha
  rw [runText_append, ← List.append_assoc, runText_cons, runText_nil, List.append_nil]
  exact endsAnnotation_append _ hstop

theorem stops_of_plain {run : List AnnotationText} (hne : run ≠ []) (hrun : ∀ a ∈ run, a.IsPlain) :
    Stops run := by
  obtain ⟨a, ha⟩ : ∃ a, run.getLast? = some a := ⟨_, List.getLast?_eq_some_getLast hne⟩
  exact ⟨a, ha, .inl (hrun a (List.mem_of_getLast? ha)).gap⟩

/-! ## Heads -/

section Modifiers

variable {allowed : List String} (hallowed : AreWords allowed)
  {modifiers : List (String × List Char)}
  (hknown : ∀ m ∈ modifiers, m.1 ∈ allowed ∧ m.2 ≠ [] ∧ isAllBlank m.2 = true)

include hallowed hknown

theorem wordsOnly_modifiers : WordsOnly (modifiers.flatMap fun m => m.1.toList ++ m.2) := by
  have hbehind {front : List Char} (hfront : WordsOnly front) :
      WordsOnly (front ++ modifiers.flatMap fun m => m.1.toList ++ m.2) := by
    induction modifiers generalizing front with
    | nil => simpa using hfront
    | cons m modifiers ih =>
      obtain ⟨⟨hmem, -, hblank⟩, hknown⟩ := List.forall_mem_cons.mp hknown
      rw [List.flatMap_cons, ← List.append_assoc]
      exact ih hknown (hfront.append_word (hallowed _ hmem).1 (hallowed _ hmem).2 hblank)
  exact @hbehind [] ⟨by simp, by simp⟩

/-- Modifiers are read up to a text that starts with none. -/
theorem readAll_modifiers {tail : List Char} (hsolid : ∀ c ∈ tail.head?, isBlank c = false)
    (hstop : wordOf? allowed tail = none) :
    (∀ c ∈ (modifiers.flatMap (fun m => m.1.toList ++ m.2) ++ tail).head?, isBlank c = false) ∧
      readAll (wordOf? allowed) (modifiers.flatMap (fun m => m.1.toList ++ m.2) ++ tail) =
        (modifiers.map Prod.fst, tail) := by
  induction modifiers with
  | nil => exact ⟨hsolid, readAll_eq_of_none hstop⟩
  | cons m modifiers ih =>
    obtain ⟨⟨hmem, hne, hblank⟩, hknown⟩ := List.forall_mem_cons.mp hknown
    obtain ⟨hnext, hread⟩ := ih hknown
    obtain ⟨hmne, hchars⟩ := hallowed _ hmem
    rw [List.flatMap_cons, List.append_assoc, List.append_assoc]
    constructor
    · rw [List.head?_append_of_ne_nil _ hmne]
      exact fun c hc => isBlank_of_isWordChar (hchars c (List.mem_of_mem_head? hc))
    · rw [readAll_of_some (fun _ _ h => length_lt_of_wordOf? h)
        (wordOf?_append hmem hchars hne hblank hnext), hread, List.map_cons]

end Modifiers

/-- The words of a head with its name: modifiers and one of the given words, each with blanks behind
it. -/
structure WrittenHead (allowed words : List String) where
  modifiers : List (String × List Char)
  word : String
  gap : List Char
  name : List Char
  modifiers_known : ∀ m ∈ modifiers, m.1 ∈ allowed ∧ m.2 ≠ [] ∧ isAllBlank m.2 = true
  word_known : word ∈ words
  gap_ne_nil : gap ≠ []
  gap_blank : isAllBlank gap = true
  name_isName : IsName name

namespace WrittenHead

variable {allowed words : List String} (head : WrittenHead allowed words)

/-- The head up to the name. -/
def front : List Char :=
  head.modifiers.flatMap (fun m => m.1.toList ++ m.2) ++ (head.word.toList ++ head.gap)

variable (hallowed : AreWords allowed) (hwords : AreWords words)

include hallowed hwords

theorem wordsOnly_front : WordsOnly head.front := by
  have hword := hwords _ head.word_known
  exact (wordsOnly_modifiers hallowed head.modifiers_known).append_word hword.1 hword.2
    head.gap_blank

/-- The words of a head are read. -/
theorem readAll_front (hapart : ∀ word ∈ words, word ∉ allowed) {rest : List Char}
    (hrest : ∀ c ∈ rest.head?, isBlank c = false) :
    readAll (wordOf? allowed) (head.front ++ rest) =
        (head.modifiers.map Prod.fst, head.word.toList ++ (head.gap ++ rest)) ∧
      wordOf? words (head.word.toList ++ (head.gap ++ rest)) = some (head.word, rest) := by
  have hword := hwords _ head.word_known
  have hread {known : List String} (hmem : head.word ∈ known) :
      wordOf? known (head.word.toList ++ (head.gap ++ rest)) = some (head.word, rest) :=
    wordOf?_append hmem hword.2 head.gap_ne_nil head.gap_blank hrest
  refine ⟨?_, hread head.word_known⟩
  have hstop : wordOf? allowed (head.word.toList ++ (head.gap ++ rest)) = none := by
    cases h : wordOf? allowed (head.word.toList ++ (head.gap ++ rest)) with
    | none => rfl
    | some r =>
      obtain ⟨word, left⟩ := r
      have heq := wordOf?_of_mem h (List.mem_append_left words (wordOf?_eq_some.mp h).2.1)
      rw [hread (List.mem_append_right allowed head.word_known)] at heq
      cases heq
      exact absurd (wordOf?_eq_some.mp h).2.1 (hapart _ head.word_known)
  have hhead : ∀ c ∈ (head.word.toList ++ (head.gap ++ rest)).head?, isBlank c = false := by
    rw [List.head?_append_of_ne_nil _ hword.1]
    exact fun c hc => isBlank_of_isWordChar (hword.2 c (List.mem_of_mem_head? hc))
  rw [front, List.append_assoc, List.append_assoc]
  exact (readAll_modifiers hallowed head.modifiers_known hhead hstop).2

end WrittenHead

/-- A reader that comes to the words of a head behind annotations has read a run of plain ones up to
these words. -/
theorem exists_run_before {allowed words : List String} (hallowed : AreWords allowed)
    (hwords : AreWords words) (head : WrittenHead allowed words) {written : List AnnotationText}
    (hwritten : Stops written) {before tail skipped cs : List Char}
    (htext : before ++ (runText written ++ (head.front ++ tail)) = skipped ++ cs)
    (hne : (annotations cs).1 ≠ [])
    (hread : behindWords? allowed words (annotations cs).2 = some tail) :
    ∃ run : List AnnotationText, (∀ a ∈ run, a.IsPlain) ∧
      (annotations cs).1 = run.map (·.text) ∧ cs = runText run ++ (head.front ++ tail) ∧
        before ++ runText written = skipped ++ runText run := by
  obtain ⟨run, hplain, htexts, hcs⟩ := exists_run_of_annotations cs
  obtain ⟨front, hfront, honly⟩ := exists_words_of_behindWords? hallowed hwords hread
  have hrun : run ≠ [] := by
    rintro rfl
    exact hne htexts
  have heq : (before ++ runText written) ++ head.front = (skipped ++ runText run) ++ front := by
    refine (List.append_left_inj tail).mp ?_
    simp only [List.append_assoc]
    rw [htext, ← hfront, ← hcs]
  have hends := (endsAnnotation_run before hwritten).unique
    (endsAnnotation_run skipped (stops_of_plain hrun hplain))
    (head.wordsOnly_front hallowed hwords) honly heq
  rw [hends, List.append_cancel_left_eq] at heq
  exact ⟨run, hplain, htexts, by rw [heq, ← hfront, ← hcs], hends⟩

section Readers

variable {allowed words : List String} {previous : Option Char} {run : List AnnotationText}
  {rest : List Char}

/-- A run of plain annotations is read up to a head behind it. -/
theorem annotations_run (head : WrittenHead allowed words) (hallowed : AreWords allowed)
    (hwords : AreWords words) (hrun : ∀ a ∈ run, a.IsPlain) (tail : List Char) :
    annotations (runText run ++ (head.front ++ tail)) = (run.map (·.text), head.front ++ tail) := by
  have honly := head.wordsOnly_front hallowed hwords
  refine annotations_runText hrun fun c hc => ?_
  have hne : head.front ≠ [] := by simp [WrittenHead.front, (hwords _ head.word_known).1]
  rw [List.head?_append_of_ne_nil _ hne] at hc
  refine ⟨honly.head c hc, ?_⟩
  rintro rfl
  exact honly.not_mem (by decide) (by decide) (List.mem_of_mem_head? hc)

theorem areWords_classModifiers : AreWords classModifiers := by decide

theorem areWords_classWords : AreWords classWords := by decide

theorem areWords_propertyModifiers : AreWords propertyModifiers := by decide

theorem areWords_propertyWords : AreWords propertyWords := by decide

/-- The name of a head, with what follows it, starts with a letter. -/
theorem head_solid_name (head : WrittenHead allowed words) (rest : List Char) :
    ∀ c ∈ (head.name ++ rest).head?, isBlank c = false := by
  rw [List.head?_append_of_ne_nil _ head.name_isName.ne_nil]
  exact head.name_isName.head_solid

/-- A class is read together with a run of plain annotations in front of it. -/
theorem classHead?_run (head : WrittenHead classModifiers classWords)
    (hprevious : previous.all precedesHead = true) (hrun : ∀ a ∈ run, a.IsPlain)
    (hrest : ∀ c ∈ rest.head?, isWordChar c = false) : ∃ word,
      classHead? previous (runText run ++ (head.front ++ (head.name ++ rest))) =
        some (⟨run.map (·.text), head.modifiers.map Prod.fst, word, String.ofList head.name⟩,
          rest) := by
  obtain ⟨hmodifiers, hword⟩ := head.readAll_front areWords_classModifiers areWords_classWords
    (by decide) (head_solid_name head rest)
  obtain ⟨word, hclass⟩ : ∃ word, ClassWord.ofWord? head.word = some word := by
    have hall : ∀ w ∈ classWords, (ClassWord.ofWord? w).isSome = true := by decide
    exact Option.isSome_iff_exists.mp (hall _ head.word_known)
  refine ⟨word, ?_⟩
  rw [classHead?, if_pos hprevious,
    annotations_run head areWords_classModifiers areWords_classWords hrun]
  simp only [hmodifiers, hword, Option.bind_eq_bind, Option.bind_some, hclass,
    name?_append head.name_isName hrest]
  rfl

/-- A property is read together with a run of plain annotations in front of it. -/
theorem locatedProperty?_run (previous : Option Char)
    (head : WrittenHead propertyModifiers propertyWords)
    (hne : run ≠ []) (hrun : ∀ a ∈ run, a.IsPlain)
    (hrest : ∀ c ∈ rest.head?, isWordChar c = false) : ∃ p left,
      locatedProperty? previous (runText run ++ (head.front ++ (head.name ++ rest))) =
          some ((p, byteLength (head.name ++ rest) - byteLength left), left) ∧
        p.annotations = run.map (·.text) ∧ p.name = String.ofList head.name ∧
          left <:+ head.name ++ rest := by
  obtain ⟨hmodifiers, hword⟩ := head.readAll_front areWords_propertyModifiers
    areWords_propertyWords (by decide) (head_solid_name head rest)
  have hat : (runText run ++ (head.front ++ (head.name ++ rest))).head? = some '@' := by
    obtain ⟨a, run, rfl⟩ := List.exists_cons_of_ne_nil hne
    rw [runText_cons]
    rfl
  have hbehind : behindPropertyWord? (runText run ++ (head.front ++ (head.name ++ rest))) =
      some (head.name ++ rest) := by
    rw [behindPropertyWord?, annotations_run head areWords_propertyModifiers areWords_propertyWords
      hrun, behindWords?, hmodifiers, hword]
    rfl
  obtain ⟨p, left, hread⟩ : ∃ p left,
      property? previous (runText run ++ (head.front ++ (head.name ++ rest))) = some (p, left) := by
    rw [property?, if_pos (.inl hat), annotations_run head areWords_propertyModifiers
      areWords_propertyWords hrun]
    simp only [propertyWords] at hword
    simp only [hmodifiers, hword, Option.bind_eq_bind, Option.bind_some,
      name?_append head.name_isName hrest]
    cases propertyType? rest with
    | none => exact ⟨_, _, rfl⟩
    | some r => exact ⟨_, _, rfl⟩
  obtain ⟨rest', name, behind, hrest', hname, hp, more, hmore, -⟩ := exists_of_property? hread
  cases hbehind.symm.trans hrest'
  rw [name?_append head.name_isName hrest] at hname
  cases hname
  have hleft : left <:+ rest := ⟨more, hmore.symm⟩
  refine ⟨p, left, ?_, ?_, hp, hleft.trans (List.suffix_append _ _)⟩
  · rw [locatedProperty?, hread]
    simp only [Option.bind_eq_bind, Option.bind_some, hbehind]
    rfl
  · rw [annotations_of_property? hread,
      annotations_run head areWords_propertyModifiers areWords_propertyWords hrun]

end Readers

end ComponentWiring.Source

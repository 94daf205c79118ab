import ComponentWiring.Proofs.Source.Annotations
import ComponentWiring.Proofs.Source.Modifiers
import ComponentWiring.Proofs.Source.Within
import ComponentWiring.Proofs.Text.Occurrences
import ComponentWiring.Source.FileFindings

/-!
Where the heads of classes stand. A head needs one of the words `class`, `interface` and `object`
behind it (`not_freeOf_of_classHead?`), so that a text that is free of these words holds none; and
it starts with an annotation, a modifier or one of these words. A text with one marked class between
texts that hold no head has exactly that head (`classHeads_eq_singleton`).
-/

namespace ComponentWiring.Source

open Text

/-! ## Texts without heads -/

/-- Behind annotations and modifiers stand only words of the whole text. -/
theorem wordRuns_annotations_subset (cs : List Char) :
    wordRuns (annotations cs).2 ⊆ wordRuns cs := by
  refine readAll_induction (p := fun rest => wordRuns rest ⊆ wordRuns cs) ?_ (List.Subset.refl _)
  intro rest r hrest h
  obtain ⟨left, hleft, hblanks⟩ := exists_of_annotation? h
  exact List.Subset.trans (wordRuns_subset_of_afterBlanks? hleft hblanks) hrest

theorem wordRuns_modifiers_subset (allowed : List String) (cs : List Char) :
    wordRuns (readAll (wordOf? allowed) cs).2 ⊆ wordRuns cs := by
  refine readAll_induction (p := fun rest => wordRuns rest ⊆ wordRuns cs) ?_ (List.Subset.refl _)
  intro rest r hrest h
  obtain ⟨-, -, hblanks⟩ := wordOf?_eq_some.mp h
  exact List.Subset.trans (wordRuns_subset_of_afterBlanks? (List.dropWhile_suffix _) hblanks) hrest

/-- What a head is made of. -/
theorem classHead?_eq_some {previous : Option Char} {cs rest : List Char} {head : ClassHead}
    (h : classHead? previous cs = some (head, rest)) :
    previous.all precedesHead = true ∧ head.annotations = (annotations cs).1 ∧
      ∃ word left, wordOf? classWords (readAll (wordOf? classModifiers) (annotations cs).2).2 =
          some (word, left) ∧
        name? left = some (head.name.toList, rest) := by
  obtain ⟨hprevious, h⟩ := Option.ite_none_right_eq_some.mp h
  obtain ⟨⟨word, left⟩, hword, h⟩ := Option.bind_eq_some_iff.mp h
  obtain ⟨_, -, h⟩ := Option.bind_eq_some_iff.mp h
  obtain ⟨⟨name, _⟩, hname, h⟩ := Option.bind_eq_some_iff.mp h
  cases h
  exact ⟨hprevious, rfl, word, left, hword, by rw [hname, String.toList_ofList]⟩

/-- A head leaves the text behind its name. -/
theorem taken_of_classHead? {previous : Option Char} {cs rest : List Char} {head : ClassHead}
    (h : classHead? previous cs = some (head, rest)) : rest <:+ cs ∧ rest.length < cs.length := by
  obtain ⟨-, -, word, left, hword, hname⟩ := classHead?_eq_some h
  obtain ⟨-, -, rfl⟩ := name?_eq_some.mp hname
  have hleft : (readAll (wordOf? classModifiers) (annotations cs).2).2 <:+ cs :=
    (readAll_suffix (fun _ _ hr => suffix_of_wordOf? hr) _).trans (annotations_suffix cs)
  refine ⟨(List.dropWhile_suffix _).trans ((suffix_of_wordOf? hword).trans hleft), ?_⟩
  calc (left.dropWhile isWordChar).length
    _ ≤ left.length := (List.dropWhile_suffix _).length_le
    _ < (readAll (wordOf? classModifiers) (annotations cs).2).2.length := length_lt_of_wordOf? hword
    _ ≤ cs.length := hleft.length_le

theorem suffix_of_classHead? (previous : Option Char) (cs : List Char) (head : ClassHead)
    (rest : List Char) (h : classHead? previous cs = some (head, rest)) : rest <:+ cs :=
  (taken_of_classHead? h).1

/-- A class has a name. -/
theorem isName_of_classHead? {previous : Option Char} {cs rest : List Char} {head : ClassHead}
    (h : classHead? previous cs = some (head, rest)) : IsName head.name.toList := by
  obtain ⟨-, -, _, _, -, hname⟩ := classHead?_eq_some h
  exact isName_of_name? hname

theorem isName_of_mem_classHeads {cs : List Char} {found : Occurrence ClassHead}
    (h : found ∈ classHeads cs) : IsName found.value.name.toList := by
  obtain ⟨_, _, -, hread⟩ := exists_of_mem_occurrences h
  exact isName_of_classHead? hread

/-- A head stands only where no word is being read, and has one of its words behind it. -/
theorem not_freeOf_of_classHead? {previous : Option Char} {cs : List Char}
    {r : ClassHead × List Char} (h : classHead? previous cs = some r) :
    (∀ c ∈ previous, isWordChar c = false) ∧ ¬FreeOf classWords cs := by
  obtain ⟨hprevious, -, word, left, hword, -⟩ := classHead?_eq_some h
  obtain ⟨rfl, hmem, -⟩ := wordOf?_eq_some.mp hword
  refine ⟨?_, fun hfree => hfree _ ?_ hmem⟩
  · intro c hc
    rw [Option.mem_def.mp hc] at hprevious
    exact isWordChar_of_precedesHead hprevious
  · exact wordRuns_annotations_subset cs
      (wordRuns_modifiers_subset _ _ (takeWhile_mem_wordRuns _))

/-- The words that a head can start with. -/
def headWords : List String :=
  classModifiers ++ classWords

theorem wordOf?_eq_none_of_subset {allowed : List String} {cs : List Char}
    (hword : String.ofList (cs.takeWhile isWordChar) ∉ headWords) (hsub : allowed ⊆ headWords) :
    wordOf? allowed cs = none := by
  cases h : wordOf? allowed cs with
  | none => rfl
  | some r =>
    obtain ⟨word, rest⟩ := r
    obtain ⟨rfl, hmem, -⟩ := wordOf?_eq_some.mp h
    exact absurd (hsub hmem) hword

/-- A head starts with an annotation or with one of its words. -/
theorem classHead?_eq_none {previous : Option Char} {cs : List Char} (hat : '@' ∉ cs.head?)
    (hword : String.ofList (cs.takeWhile isWordChar) ∉ headWords) :
    classHead? previous cs = none := by
  cases h : classHead? previous cs with
  | none => rfl
  | some r =>
    obtain ⟨-, -, word, left, hread, -⟩ := classHead?_eq_some h
    rw [annotations_of_head hat,
      readAll_eq_of_none (wordOf?_eq_none_of_subset hword (List.subset_append_left _ _)),
      wordOf?_eq_none_of_subset hword (List.subset_append_right _ _)] at hread
    cases hread

/-- No head starts in a text without the words that heads start with. -/
theorem occurrencesFrom_classHead?_of_freeOf {before rest : List Char} {previous : Option Char}
    (hlast : ∃ c ∈ before.getLast?, isWordChar c = false) (hat : '@' ∉ before)
    (hfree : FreeOf headWords before) (offset : Nat) :
    occurrencesFrom classHead? 0 offset previous (before ++ rest) =
      occurrencesFrom classHead? 0 (offset + byteLength before) (before.getLast?.or previous)
        rest := by
  refine occurrencesFrom_of_none (fun as c bs heq => ?_) offset
  cases h : classHead? (as.getLast?.or previous) (c :: (bs ++ rest)) with
  | none => rfl
  | some r =>
    obtain ⟨hprevious, -⟩ := not_freeOf_of_classHead? h
    have hboundary : ∀ d ∈ as.getLast?, isWordChar d = false :=
      fun d hd => hprevious d (Option.mem_def.mp hd ▸ rfl)
    obtain ⟨last, hlast, hsolid⟩ := hlast
    have hend : ∃ d ∈ (c :: bs).getLast?, isWordChar d = false := by
      rw [heq, List.getLast?_append_of_ne_nil _ (by simp)] at hlast
      exact ⟨last, hlast, hsolid⟩
    rw [← h]
    refine classHead?_eq_none ?_ ?_
    · rintro hc
      obtain rfl : c = '@' := Option.some.inj hc
      exact hat (heq ▸ List.mem_append_right _ List.mem_cons_self)
    · rw [← List.cons_append, takeWhile_append_of_last hend]
      exact hfree _ (heq ▸ wordRuns_subset_append hboundary (takeWhile_mem_wordRuns _))

/-! ## Classes without modifiers -/

/-- The word `class` is read as the word of a head, and not as a modifier. -/
theorem wordOf?_class {name : List Char} (hname : IsName name) (rest : List Char) :
    wordOf? classModifiers ("class ".toList ++ (name ++ rest)) = none ∧
      wordOf? classWords ("class ".toList ++ (name ++ rest)) = some ("class", name ++ rest) := by
  have hclass : "class ".toList ++ (name ++ rest) = "class".toList ++ ' ' :: (name ++ rest) := rfl
  have htake : ("class ".toList ++ (name ++ rest)).takeWhile isWordChar = "class".toList := by
    rw [hclass]
    exact takeWhile_append_of_head (List.all_eq_true.mp (by decide)) (by simpa using by decide)
  have hdrop : ("class ".toList ++ (name ++ rest)).dropWhile isWordChar =
      ' ' :: (name ++ rest) := by
    rw [hclass]
    exact dropWhile_append_of_head (List.all_eq_true.mp (by decide)) (by simpa using by decide)
  have hblanks : afterBlanks? (' ' :: (name ++ rest)) = some (name ++ rest) := by
    rw [afterBlanks?, if_pos (by decide), hname.trimmed.trimStart_append]
  refine ⟨?_, wordOf?_eq_some.mpr ⟨by rw [htake]; rfl, by decide, by rw [hdrop, hblanks]⟩⟩
  simp only [wordOf?, htake]
  rfl

/-- Annotations and a class without modifiers. -/
theorem classHead?_of_annotations {previous : Option Char} {cs name rest : List Char}
    {texts : List (List Char)} (hprevious : previous.all precedesHead = true)
    (hannotations : annotations cs = (texts, "class ".toList ++ (name ++ rest)))
    (hname : IsName name) (hrest : ∀ c ∈ rest.head?, isWordChar c = false) :
    classHead? previous cs = some (⟨texts, [], .ofClass, String.ofList name⟩, rest) := by
  obtain ⟨hmodifiers, hword⟩ := wordOf?_class hname rest
  unfold classHead?
  rw [if_pos hprevious, hannotations]
  simp only [readAll_eq_of_none hmodifiers, hword, Option.bind_eq_bind, Option.bind_some,
    name?_append hname hrest]
  rfl

/-! ## One marked class -/

/-- The head of a class with one annotation, on a line of its own. -/
def markedHead (marker name : List Char) : List Char :=
  '@' :: (marker ++ '\n' :: ("class ".toList ++ name))

theorem classHead?_markedHead {previous : Option Char} {marker name rest : List Char}
    (hprevious : previous.all precedesHead = true) (hmarker : IsName marker) (hname : IsName name)
    (hrest : ∀ c ∈ rest.head?, isWordChar c = false) :
    classHead? previous (markedHead marker name ++ rest) =
      some (⟨['@' :: marker], [], .ofClass, String.ofList name⟩, rest) := by
  refine classHead?_of_annotations hprevious ?_ hname hrest
  have h := annotation?_marker hmarker.ne_nil hmarker.2 (show isBlank '\n' = true from rfl)
    ("class ".toList ++ (name ++ rest))
  rw [trimStart_eq_self (by simpa using by decide)] at h
  refine readAll_eq_singleton (by simp [markedHead]) ?_ (annotationWith?_of_head (by simp))
  simpa [markedHead] using h

/-- A text with one marked class, and no other heads around it. -/
theorem classHeads_eq_singleton {before marker name rest : List Char}
    (hlast : ∃ c ∈ before.getLast?, precedesHead c = true) (hat : '@' ∉ before)
    (hbefore : FreeOf headWords before) (hmarker : IsName marker) (hname : IsName name)
    (hrest : ∀ c ∈ rest.head?, isWordChar c = false) (hfree : FreeOf classWords rest) :
    classHeads (before ++ (markedHead marker name ++ rest)) =
      [⟨⟨['@' :: marker], [], .ofClass, String.ofList name⟩,
        byteLength (before ++ markedHead marker name), rest⟩] := by
  obtain ⟨last, hlast, hprecedes⟩ := hlast
  have hend : ∀ as c bs, rest = as ++ c :: bs →
      classHead? (as.getLast?.or ((markedHead marker name).getLast?.or (before.getLast?.or none)))
        (c :: (bs ++ [])) = none := by
    intro as c bs heq
    rw [List.append_nil]
    cases h : classHead? _ (c :: bs) with
    | none => rfl
    | some r =>
      obtain ⟨hprevious, hnot⟩ := not_freeOf_of_classHead? h
      refine absurd (fun run hrun => hfree run ?_) hnot
      rw [heq]
      refine wordRuns_subset_append (fun d hd => hprevious d ?_) hrun
      rw [Option.mem_def.mp hd]
      rfl
  have hboundary : ∃ c ∈ before.getLast?, isWordChar c = false :=
    ⟨last, hlast, isWordChar_of_precedesHead hprecedes⟩
  have hprevious : (before.getLast?.or none).all precedesHead = true := by
    rw [Option.or_none, Option.mem_def.mp hlast]
    exact hprecedes
  have hrestNone := occurrencesFrom_of_none hend (0 + byteLength before +
    byteLength (markedHead marker name))
  rw [List.append_nil] at hrestNone
  rw [classHeads, occurrences, occurrencesFrom_classHead?_of_freeOf hboundary hat hbefore,
    occurrencesFrom_of_some (by simp [markedHead])
      (classHead?_markedHead hprevious hmarker hname hrest), hrestNone]
  simp [occurrencesFrom]

end ComponentWiring.Source

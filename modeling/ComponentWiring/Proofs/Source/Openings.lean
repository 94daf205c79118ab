import ComponentWiring.Proofs.Source.ClassHeads
import ComponentWiring.Proofs.Source.Markers

/-!
Places at which a class can open. A head has one of its words with a blank behind it, so that a text
in which no such word has a blank behind it holds no head (`HeadFree`), and neither does one in
which only a body follows the word (`Nameless`). In a text with comments a slash counts as a blank,
since a comment may start there; blanking them out then opens no further class (`HeadFree.mask`,
`Nameless.mask`). A text that is free but for one word has heads of one class only
(`eq_of_mem_classHeads`).
-/

namespace ComponentWiring.Source

open Text

/-- A word of a class head at a place where it can stand, with something behind it that a name can
follow. -/
structure Opening (cs before word left : List Char) : Prop where
  eq : cs = before ++ (word ++ left)
  word : String.ofList word ∈ classWords
  previous : ∀ c ∈ before.getLast?, precedesHead c = true
  next : ∃ c ∈ left.head?, isBlank c = true ∨ c = '/'

/-- No class opens in the text. -/
def HeadFree (cs : List Char) : Prop :=
  ∀ before word left, ¬Opening cs before word left

theorem isWordChar_of_mem_classWords {word : List Char} (h : String.ofList word ∈ classWords) :
    word ≠ [] ∧ ∀ c ∈ word, isWordChar c = true := by
  have hne : ∀ word ∈ classWords, word.toList ≠ [] := by decide
  have hall : classWords.all (fun word => word.toList.all isWordChar) = true := by decide
  exact ⟨by simpa using hne _ h, by simpa using List.all_eq_true.mp hall _ h⟩

namespace Opening

variable {as bs cs before word left : List Char} {c : Char}

theorem next_not_word (h : Opening cs before word left) :
    ∀ c ∈ left.head?, isWordChar c = false := by
  obtain ⟨d, hd, hnext⟩ := h.next
  intro c hc
  obtain rfl : d = c := Option.some.inj (hd.symm.trans hc)
  rcases hnext with hblank | rfl
  · exact isWordChar_of_isBlank hblank
  · decide

/-- What follows a place in front of the word starts with the word. -/
theorem takeWhile_eq (h : Opening cs before word left) :
    (word ++ left).takeWhile isWordChar = word ∧ (word ++ left).dropWhile isWordChar = left :=
  have hword := (isWordChar_of_mem_classWords h.word).2
  ⟨takeWhile_append_of_head hword h.next_not_word, dropWhile_append_of_head hword h.next_not_word⟩

theorem not_freeOf (h : Opening cs before word left) : ¬FreeOf classWords cs := by
  refine fun hfree => hfree word ?_ h.word
  rw [h.eq]
  have hmem := takeWhile_mem_wordRuns (word ++ left)
  rw [h.takeWhile_eq.1] at hmem
  exact wordRuns_subset_append (fun c hc => isWordChar_of_precedesHead (h.previous c hc)) hmem

/-- On either side of a character that belongs to no word, classes open as they do without the other
side. -/
theorem of_append_cons (h : Opening (as ++ c :: bs) before word left) (hc : isWordChar c = false) :
    (∃ left', Opening (as ++ [c]) before word left') ∨
      ∃ before', before = as ++ c :: before' ∧ Opening bs before' word left := by
  obtain ⟨hne, hword⟩ := isWordChar_of_mem_classWords h.word
  rcases List.append_eq_append_iff.mp h.eq with ⟨between, rfl, heq⟩ | ⟨between, rfl, heq⟩
  · cases between with
    | nil =>
      obtain ⟨d, word, rfl⟩ := List.exists_cons_of_ne_nil hne
      obtain ⟨rfl, -⟩ := List.cons.inj heq
      rw [hword c List.mem_cons_self] at hc
      cases hc
    | cons d between =>
      rw [List.cons_append] at heq
      obtain ⟨rfl, rfl⟩ := List.cons.inj heq
      refine .inr ⟨between, rfl, rfl, h.word, fun d hd => h.previous d ?_, h.next⟩
      rw [List.getLast?_append, List.getLast?_cons, Option.mem_def.mp hd]
      rfl
  · rcases List.append_eq_append_iff.mp heq with ⟨tail, rfl, rfl⟩ | ⟨tail, hsplit, hright⟩
    · refine .inl ⟨tail ++ [c], by simp, h.word, h.previous, ?_⟩
      obtain ⟨d, hd, hnext⟩ := h.next
      refine ⟨d, ?_, hnext⟩
      rwa [List.head?_append, List.head?_cons] at hd ⊢
    · cases tail with
      | nil =>
        rw [List.append_nil] at hsplit
        subst hsplit
        refine .inl ⟨[c], by simp, h.word, h.previous, ?_⟩
        rw [List.nil_append] at hright
        simpa only [← hright, List.head?_cons] using h.next
      | cons d tail =>
        rw [List.cons_append] at hright
        obtain ⟨rfl, -⟩ := List.cons.inj hright
        rw [hword c (by simp [hsplit])] at hc
        cases hc

/-- A class that opens where comments are blanked out also opens in the text itself, with the same
text behind it but for its comments. -/
theorem exists_of_mask {state : CommentState} (h : Opening (state.mask cs) before word left) :
    ∃ before' left' literal, Opening cs before' word left' ∧
      left = (CommentState.source literal).mask left' := by
  obtain ⟨hne, hword⟩ := isWordChar_of_mem_classWords h.word
  obtain ⟨a, rest, rfl⟩ := List.exists_cons_of_ne_nil hne
  have hblank : isBlank a = false := isBlank_of_isWordChar (hword a List.mem_cons_self)
  obtain ⟨before', cs', literal, rfl, hmask, -, hlast⟩ :=
    CommentState.exists_of_mask_eq (h.eq.trans rfl) hblank
  have hrest : ∀ c ∈ rest, isWordChar c = true := fun c hc => hword c (List.mem_cons_of_mem a hc)
  obtain ⟨htake, literal', hdrop⟩ :=
    CommentState.takeWhile_mask (p := isWordChar) (by decide) (by decide) literal cs'
  rw [← hmask, List.append_eq, takeWhile_append_of_head hrest h.next_not_word] at htake
  rw [← hmask, List.append_eq, dropWhile_append_of_head hrest h.next_not_word] at hdrop
  refine ⟨before', cs'.dropWhile isWordChar, literal', ⟨?_, h.word, fun c hc => ?_, ?_⟩, hdrop⟩
  · rw [List.cons_append, htake, List.takeWhile_append_dropWhile]
  · rcases hlast c hc with rfl | rfl | hc
    · decide
    · decide
    · exact h.previous c hc
  · obtain ⟨c, hc, hnext⟩ := h.next
    rw [hdrop] at hc
    rcases CommentState.head?_mask hc with hc | ⟨-, hslash⟩
    · exact ⟨c, hc, hnext⟩
    · exact ⟨'/', hslash, .inr rfl⟩

end Opening

/-! ## Texts in which no class opens -/

namespace HeadFree

variable {as bs cs : List Char} {c : Char}

theorem of_freeOf (h : FreeOf classWords cs) : HeadFree cs :=
  fun _ _ _ hopen => hopen.not_freeOf h

/-- Without blanks and slashes nothing can follow a word. -/
theorem of_solid (h : ∀ c ∈ cs, isBlank c = false ∧ c ≠ '/') : HeadFree cs := by
  intro before word left hopen
  obtain ⟨c, hc, hnext⟩ := hopen.next
  have hmem : c ∈ cs := by
    rw [hopen.eq]
    exact List.mem_append_right _ (List.mem_append_right _ (List.mem_of_mem_head? hc))
  rcases hnext with hblank | hslash
  · exact Bool.false_ne_true ((h c hmem).1.symm.trans hblank)
  · exact (h c hmem).2 hslash

theorem append_cons (hc : isWordChar c = false) (has : HeadFree (as ++ [c])) (hbs : HeadFree bs) :
    HeadFree (as ++ c :: bs) := by
  intro before word left hopen
  rcases hopen.of_append_cons hc with ⟨left', hopen⟩ | ⟨before', -, hopen⟩
  · exact has _ _ _ hopen
  · exact hbs _ _ _ hopen

/-- A word behind a dot opens nothing. -/
theorem of_dotted (h : ∀ c ∈ cs, isDottedChar c = true) (hdot : '.' ∈ cs)
    (c : Char) : HeadFree (cs ++ [c]) := by
  intro before word left hopen
  obtain ⟨c, hc, hnext⟩ := hopen.next
  rcases List.eq_nil_or_concat left with rfl | ⟨front, last, rfl⟩
  · cases hc
  rw [List.concat_eq_append] at hc hopen
  have heq : cs = before ++ (word ++ front) := by
    have heq := hopen.eq
    rw [← List.append_assoc, ← List.append_assoc] at heq
    rw [(List.append_inj' heq rfl).1, List.append_assoc]
  cases front with
  | cons d front =>
    obtain rfl : d = c := by simpa using hc
    have hd := h d (by simp [heq])
    rcases hnext with hnext | rfl
    · rw [(precedesHead_eq_true_iff.mp (precedesHead_of_isBlank hnext)).1] at hd
      cases hd
    · exact absurd hd (by decide)
  | nil =>
    have hbefore : '.' ∈ before := by
      rw [heq, List.append_nil] at hdot
      refine (List.mem_append.mp hdot).resolve_right fun hword => ?_
      exact absurd ((isWordChar_of_mem_classWords hopen.word).2 '.' hword) (by decide)
    obtain ⟨d, hd⟩ : ∃ d, before.getLast? = some d :=
      ⟨_, List.getLast?_eq_some_getLast (List.ne_nil_of_mem hbefore)⟩
    have hdotted := h d (by simp [heq, List.mem_of_getLast? hd])
    rw [(precedesHead_eq_true_iff.mp (hopen.previous d hd)).1] at hdotted
    cases hdotted

theorem mask (h : HeadFree cs) (state : CommentState) : HeadFree (state.mask cs) := by
  intro before word left hopen
  obtain ⟨before', left', -, hopen, -⟩ := hopen.exists_of_mask
  exact h _ _ _ hopen

end HeadFree

/-- A class that opens in the text has no name: its word stands right in front of a body. -/
def Nameless (cs : List Char) : Prop :=
  ∀ before word left, Opening cs before word left → ∃ body, left = ' ' :: '{' :: body

namespace Nameless

variable {as bs cs : List Char} {c : Char}

theorem of_headFree (h : HeadFree cs) : Nameless cs :=
  fun _ _ _ hopen => absurd hopen (h _ _ _)

theorem append_cons (hc : isWordChar c = false) (has : Nameless (as ++ [c])) (hbs : Nameless bs) :
    Nameless (as ++ c :: bs) := by
  intro before word left hopen
  rcases hopen.of_append_cons hc with ⟨left', hopen'⟩ | ⟨before', -, hopen'⟩
  · obtain ⟨body, rfl⟩ := has _ _ _ hopen'
    have heq : before ++ (word ++ left) = before ++ (word ++ ' ' :: '{' :: body) ++ bs := by
      rw [← hopen.eq, ← hopen'.eq]
      simp
    rw [List.append_assoc, List.append_cancel_left_eq, List.append_assoc,
      List.append_cancel_left_eq] at heq
    exact ⟨body ++ bs, heq⟩
  · exact hbs _ _ _ hopen'

theorem of_cons (hc : precedesHead c = true) (h : Nameless (c :: cs)) : Nameless cs := by
  intro before word left hopen
  refine h (c :: before) word left ⟨by rw [hopen.eq]; rfl, hopen.word, fun d hd => ?_, hopen.next⟩
  cases before with
  | nil =>
    obtain rfl : c = d := by simpa using hd
    exact hc
  | cons b before => exact hopen.previous d hd

/-- A text without the words at all can stand in front. -/
theorem append (has : FreeOf classWords as) (hbs : Nameless bs)
    (hhead : ∀ c ∈ bs.head?, precedesHead c = true) : Nameless (as ++ bs) := by
  cases bs with
  | nil =>
    rw [List.append_nil]
    exact of_headFree (.of_freeOf has)
  | cons c bs =>
    have hc := isWordChar_of_precedesHead (hhead c rfl)
    refine append_cons hc (of_headFree (.of_freeOf ?_)) (hbs.of_cons (hhead c rfl))
    exact (freeOf_append_cons hc).mpr ⟨has, by decide⟩

theorem mask (h : Nameless cs) (state : CommentState) : Nameless (state.mask cs) := by
  intro before word left hopen
  obtain ⟨before', left', literal, hopen', rfl⟩ := hopen.exists_of_mask
  obtain ⟨body, rfl⟩ := h _ _ _ hopen'
  rw [CommentState.mask_cons_of_ne (by decide), CommentState.mask_cons_of_ne (by decide)]
  exact ⟨_, rfl⟩

/-- Any word can stand right in front of a body. -/
theorem word_append {name rest : List Char} (hname : ∀ c ∈ name, isWordChar c = true)
    (hrest : Nameless ('{' :: rest)) : Nameless (name ++ ' ' :: '{' :: rest) := by
  intro before word left hopen
  rcases hopen.of_append_cons (by decide) with ⟨left', hopen'⟩ | ⟨before', -, hopen'⟩
  · -- The word is the whole name: in front of it no character of the name can stand.
    obtain rfl : before = [] := by
      rcases List.append_eq_append_iff.mp hopen'.eq with ⟨between, rfl, heq⟩ | ⟨between, rfl, heq⟩
      · have hlength := congrArg List.length heq
        have hword := List.length_pos_of_ne_nil (isWordChar_of_mem_classWords hopen'.word).1
        obtain ⟨_, hhead, -⟩ := hopen'.next
        have hleft := List.length_pos_of_mem (List.mem_of_mem_head? hhead)
        simp only [List.length_append, List.length_cons, List.length_nil] at hlength
        omega
      · refine List.getLast?_eq_none_iff.mp (Option.eq_none_iff_forall_ne_some.mpr fun c hc => ?_)
        have hmem := hname c (List.mem_append_left _ (List.mem_of_getLast? hc))
        rw [isWordChar_of_precedesHead (hopen'.previous c hc)] at hmem
        cases hmem
    have hleft := hopen.takeWhile_eq.2
    have heq : word ++ left = name ++ ' ' :: '{' :: rest := hopen.eq.symm
    rw [heq, dropWhile_append_of_head hname (by simp; decide)] at hleft
    exact ⟨rest, hleft.symm⟩
  · exact hrest _ _ _ hopen'

end Nameless

/-! ## Heads -/

variable {cs : List Char}

/-- Modifiers, like annotations, end where blanks follow them. -/
theorem exists_modifiers_eq (allowed : List String) (cs : List Char) :
    ∃ front, cs = front ++ (readAll (wordOf? allowed) cs).2 ∧
      ∀ c ∈ front.getLast?, isBlank c = true := by
  refine readAll_induction (p := fun rest => ∃ front, cs = front ++ rest ∧
    ∀ c ∈ front.getLast?, isBlank c = true) ?_ ⟨[], rfl, by simp⟩
  rintro cs' ⟨word, rest⟩ ⟨front, rfl, -⟩ hread
  obtain ⟨-, -, hblanks⟩ := wordOf?_eq_some.mp hread
  obtain ⟨gap, hgap, hne, hblank⟩ := exists_gap_of_afterBlanks? hblanks
  refine ⟨front ++ cs'.takeWhile isWordChar ++ gap, ?_, ?_⟩
  · rw [List.append_assoc, ← hgap, List.append_assoc, List.takeWhile_append_dropWhile]
  · rw [← List.append_nil (_ ++ gap)]
    exact isBlank_of_getLast?_append hne hblank (by simp)

/-- A class opens behind the annotations and modifiers of a head. -/
theorem exists_opening_of_mem_classHeads {found : Occurrence ClassHead}
    (h : found ∈ classHeads cs) : ∃ before word left, Opening cs before word left ∧
      name? (trimStart left) = some (found.value.name.toList, found.rest) ∧
      ∀ marker, MarkFree marker before →
        carriesMarker found.value.annotations marker = false := by
  obtain ⟨before, after, rfl, hread⟩ := exists_of_mem_occurrences h
  obtain ⟨hprevious, hannotations, _, _, hword, hname⟩ := classHead?_eq_some hread
  obtain ⟨rfl, hmem, hblanks⟩ := wordOf?_eq_some.mp hword
  obtain ⟨front, hfront, hblank, hmarked⟩ := exists_annotations_eq after
  obtain ⟨front', hfront', hblank'⟩ := exists_modifiers_eq classModifiers (annotations after).2
  obtain ⟨gap, hgap, hne, hgapBlank⟩ := exists_gap_of_afterBlanks? hblanks
  obtain ⟨rfl, -⟩ := afterBlanks?_eq_some hblanks
  refine ⟨before ++ (front ++ front'), _, _, ⟨?_, hmem, ?_, ?_⟩, hname, fun marker hmarker => ?_⟩
  · rw [List.takeWhile_append_dropWhile, List.append_assoc, List.append_assoc, ← hfront', ← hfront]
  · intro c hc
    rw [← List.append_assoc, List.getLast?_append, List.getLast?_append, Option.mem_def,
      Option.or_eq_some_iff, Option.or_eq_some_iff] at hc
    rcases hc with hc | ⟨-, hc | ⟨-, hc⟩⟩
    · exact precedesHead_of_isBlank (hblank' c hc)
    · exact precedesHead_of_isBlank (hblank c hc)
    · rwa [hc] at hprevious
  · obtain ⟨c, gap, rfl⟩ := List.exists_cons_of_ne_nil hne
    rw [hgap]
    exact ⟨c, rfl, .inl (List.all_eq_true.mp hgapBlank c List.mem_cons_self)⟩
  · rw [hannotations]
    exact hmarked marker front' (hmarker.suffix (List.suffix_append before _))

theorem name?_body (body : List Char) : name? (trimStart (' ' :: '{' :: body)) = none := by
  rw [trimStart_cons_of_blank rfl, trimStart_eq_self (by simp; decide)]
  rfl

theorem Nameless.classHeads_eq_nil (h : Nameless cs) : classHeads cs = [] := by
  refine List.eq_nil_iff_forall_not_mem.mpr fun found hfound => ?_
  obtain ⟨before, word, left, hopen, hname, -⟩ := exists_opening_of_mem_classHeads hfound
  obtain ⟨body, rfl⟩ := h _ _ _ hopen
  rw [name?_body] at hname
  cases hname

/-- At the start of a text that goes on with a class, only this class opens with a name. -/
theorem Opening.eq_of_class {before word left name rest : List Char}
    (h : Opening ("class".toList ++ ' ' :: (name ++ rest)) before word left)
    (hfree : Nameless (name ++ rest)) :
    (before = [] ∧ left = ' ' :: (name ++ rest)) ∨ ∃ body, left = ' ' :: '{' :: body := by
  rcases h.of_append_cons (by decide) with ⟨left', hopen⟩ | ⟨before', -, hopen⟩
  · left
    obtain rfl : before = [] := by
      have hlong : ∀ word ∈ classWords, 5 ≤ word.toList.length := by decide
      have hword : 5 ≤ word.length := by simpa using hlong _ hopen.word
      obtain ⟨_, hhead, -⟩ := hopen.next
      have hleft : 0 < left'.length := List.length_pos_of_mem (List.mem_of_mem_head? hhead)
      have hlength := congrArg List.length hopen.eq
      simp only [List.length_append, String.length_toList] at hlength
      refine List.eq_nil_of_length_eq_zero ?_
      change 5 + 1 = _ at hlength
      omega
    refine ⟨rfl, ?_⟩
    have hdrop := h.takeWhile_eq.2
    have heq : word ++ left = "class".toList ++ ' ' :: (name ++ rest) := h.eq.symm
    rw [heq, dropWhile_append_of_head (List.all_eq_true.mp (by decide)) (by simp; decide)] at hdrop
    exact hdrop.symm
  · exact .inr (hfree _ _ _ hopen)

/-- Where one class opens with a name and no other, every head is a head of this class. -/
theorem eq_of_mem_classHeads {before name rest : List Char} (hbefore : HeadFree before)
    (hlast : ∀ c ∈ before.getLast?, isWordChar c = false) (hname : IsName name)
    (hword : String.ofList name ∉ classWords) (hrest : Nameless rest)
    (hhead : ∀ c ∈ rest.head?, precedesHead c = true) {found : Occurrence ClassHead}
    (h : found ∈ classHeads (before ++ ("class".toList ++ ' ' :: (name ++ rest)))) :
    found.value.name = String.ofList name ∧ found.rest = rest ∧
      ∀ marker, MarkFree marker before →
        carriesMarker found.value.annotations marker = false := by
  have hfree : Nameless (name ++ rest) := .append ((freeOf_word hname.2).mpr hword) hrest hhead
  obtain ⟨front, word, left, hopen, hread, hmarked⟩ := exists_opening_of_mem_classHeads h
  have hnamed : ¬∃ body, left = ' ' :: '{' :: body := by
    rintro ⟨body, rfl⟩
    rw [name?_body] at hread
    cases hread
  have hplace : front = before ∧ left = ' ' :: (name ++ rest) := by
    rcases List.eq_nil_or_concat before with rfl | ⟨as, c, rfl⟩
    · exact (hopen.eq_of_class hfree).resolve_right hnamed
    · rw [List.concat_eq_append] at hopen hbefore hlast ⊢
      rw [List.append_assoc, List.singleton_append] at hopen
      rcases hopen.of_append_cons (hlast c (by simp)) with ⟨left', hopen'⟩ | ⟨front, rfl, hopen'⟩
      · exact absurd hopen' (hbefore _ _ _)
      · obtain ⟨rfl, rfl⟩ := (hopen'.eq_of_class hfree).resolve_right hnamed
        exact ⟨rfl, rfl⟩
  obtain ⟨rfl, rfl⟩ := hplace
  rw [trimStart_cons_of_blank rfl, hname.trimmed.trimStart_append,
    name?_append hname fun c hc => isWordChar_of_precedesHead (hhead c hc), Option.some.injEq,
    Prod.mk.injEq] at hread
  exact ⟨by rw [hread.1, String.ofList_toList], hread.2.symm, hmarked⟩

end ComponentWiring.Source

import ComponentWiring.Proofs.Text.Cutting
import ComponentWiring.Proofs.Text.Words
import ComponentWiring.Source.Fragment

/-!
Where a parameter has its name. Modifiers are words like any name, so that a reader of parameters
has to try how many of the words are modifiers. It finds the same name whatever words it takes for
modifiers, since only one word has a colon behind it: `finish_eq_of_modified` says that two readers
with different modifiers, each of which can take all the words that come first, finish at the same
place.
-/

namespace ComponentWiring.Source

open Text

/-! ## Single words -/

theorem isWordChar_colon : isWordChar ':' = false := by decide

theorem isWordChar_at : isWordChar '@' = false := by decide

theorem wordOf?_eq_some {allowed : List String} {cs rest : List Char} {word : String} :
    wordOf? allowed cs = some (word, rest) ↔
      word = String.ofList (cs.takeWhile isWordChar) ∧ word ∈ allowed ∧
        afterBlanks? (cs.dropWhile isWordChar) = some rest := by
  unfold wordOf?
  by_cases hallowed : allowed.contains (String.ofList (cs.takeWhile isWordChar)) = true
  · simp only [hallowed, if_true, Option.map_eq_some_iff, Prod.mk.injEq, exists_eq_right_right]
    constructor
    · rintro ⟨hrest, rfl⟩
      exact ⟨rfl, by simpa using hallowed, hrest⟩
    · rintro ⟨rfl, -, hrest⟩
      exact ⟨hrest, rfl⟩
  · simp only [hallowed]
    constructor
    · intro h
      cases h
    · rintro ⟨rfl, hmem, -⟩
      exact absurd (by simpa using hmem) hallowed

/-- What is read as a word is one, with blanks behind it. -/
theorem exists_of_wordOf? {allowed : List String} {cs rest : List Char} {word : String}
    (h : wordOf? allowed cs = some (word, rest)) : word ∈ allowed ∧
      ∃ gap, gap ≠ [] ∧ isAllBlank gap = true ∧ cs = word.toList ++ (gap ++ rest) := by
  obtain ⟨rfl, hmem, hblanks⟩ := wordOf?_eq_some.mp h
  obtain ⟨gap, hgap, hne, hblank⟩ := exists_gap_of_afterBlanks? hblanks
  refine ⟨hmem, gap, hne, hblank, ?_⟩
  rw [String.toList_ofList, ← hgap, List.takeWhile_append_dropWhile]

/-- The word does not depend on the words that are allowed. -/
theorem wordOf?_of_mem {allowed allowed' : List String} {cs rest : List Char} {word : String}
    (h : wordOf? allowed cs = some (word, rest)) (hmem : word ∈ allowed') :
    wordOf? allowed' cs = some (word, rest) := by
  obtain ⟨hword, -, hrest⟩ := wordOf?_eq_some.mp h
  exact wordOf?_eq_some.mpr ⟨hword, hmem, hrest⟩

/-- No word starts at a character that belongs to none. -/
theorem wordOf?_cons_eq_none {allowed : List String} (hallowed : "" ∉ allowed) {c : Char}
    (hc : isWordChar c = false) (cs : List Char) : wordOf? allowed (c :: cs) = none := by
  cases h : wordOf? allowed (c :: cs) with
  | none => rfl
  | some r =>
    obtain ⟨word, rest⟩ := r
    obtain ⟨hword, hmem, -⟩ := wordOf?_eq_some.mp h
    rw [List.takeWhile_cons_of_neg (by simp [hc])] at hword
    rw [hword, String.ofList_nil] at hmem
    exact absurd hmem hallowed

theorem length_lt_of_wordOf? {allowed : List String} {cs rest : List Char} {word : String}
    (h : wordOf? allowed cs = some (word, rest)) : rest.length < cs.length := by
  obtain ⟨-, -, hrest⟩ := wordOf?_eq_some.mp h
  exact (afterBlanks?_eq_some hrest).2.trans_le (List.dropWhile_sublist _).length_le

theorem suffix_of_wordOf? {allowed : List String} {cs rest : List Char} {word : String}
    (h : wordOf? allowed cs = some (word, rest)) : rest <:+ cs := by
  obtain ⟨-, -, hrest⟩ := wordOf?_eq_some.mp h
  exact (afterBlanks?_suffix hrest).trans (List.dropWhile_suffix _)

/-- More text behind what follows the word changes nothing. -/
theorem wordOf?_append_right {allowed : List String} {cs rest : List Char} {word : String}
    (h : wordOf? allowed cs = some (word, rest)) (hrest : rest ≠ []) (more : List Char) :
    wordOf? allowed (cs ++ more) = some (word, rest ++ more) := by
  obtain ⟨rfl, hmem, hblanks⟩ := wordOf?_eq_some.mp h
  have hne : cs.dropWhile isWordChar ≠ [] := by
    intro hempty
    rw [hempty] at hblanks
    cases hblanks
  rw [wordOf?_eq_some, takeWhile_append_of_rest hne, dropWhile_append_of_rest hne]
  exact ⟨rfl, hmem, afterBlanks?_append hblanks hrest more⟩

/-! ## Names with a colon behind them -/

theorem isWordChar_of_isNameStart {c : Char} (hc : isNameStart c = true) : isWordChar c = true := by
  apply isWordChar_of_isAsciiWordChar
  simp only [isNameStart, isAsciiWordChar, Bool.or_eq_true] at hc ⊢
  exact hc.imp .inl id

theorem name?_eq_some {cs name rest : List Char} :
    name? cs = some (name, rest) ↔
      (∃ c ∈ cs.head?, isNameStart c = true) ∧ name = cs.takeWhile isWordChar ∧
        rest = cs.dropWhile isWordChar := by
  cases cs with
  | nil => simp [name?]
  | cons c cs =>
    rw [name?]
    cases hc : isNameStart c with
    | true =>
      rw [List.takeWhile_cons_of_pos (isWordChar_of_isNameStart hc),
        List.dropWhile_cons_of_pos (isWordChar_of_isNameStart hc)]
      simp only [if_true, Option.some.injEq, Prod.mk.injEq]
      constructor
      · rintro ⟨rfl, rfl⟩
        exact ⟨⟨c, rfl, hc⟩, rfl, rfl⟩
      · rintro ⟨-, rfl, rfl⟩
        exact ⟨rfl, rfl⟩
    | false => simp [hc]

/-- A name: a letter or an underscore and word characters. -/
def IsName (cs : List Char) : Prop :=
  (∃ c ∈ cs.head?, isNameStart c = true) ∧ ∀ c ∈ cs, isWordChar c = true

instance (cs : List Char) : Decidable (IsName cs) :=
  decidable_of_iff (cs.head?.any isNameStart = true ∧ cs.all isWordChar = true)
    (by simp only [IsName, Option.any_eq_true, List.all_eq_true, Option.mem_def])

theorem IsName.ne_nil {name : List Char} (h : IsName name) : name ≠ [] := by
  rintro rfl
  simp [IsName] at h

theorem IsName.head_solid {name : List Char} (h : IsName name) :
    ∀ c ∈ name.head?, isBlank c = false := by
  obtain ⟨⟨start, hstart, hname⟩, -⟩ := h
  intro c hc
  rw [Option.mem_unique hc hstart]
  exact isBlank_of_isWordChar (isWordChar_of_isNameStart hname)

theorem IsName.trimmed {name : List Char} (h : IsName name) : Trimmed name :=
  ⟨h.ne_nil, h.head_solid, fun c hc => isBlank_of_isWordChar (h.2 c (List.mem_of_getLast? hc))⟩

theorem IsName.not_at_append {name : List Char} (h : IsName name) (rest : List Char) :
    '@' ∉ (name ++ rest).head? := by
  rw [List.head?_append_of_ne_nil _ h.ne_nil]
  obtain ⟨⟨start, hstart, hname⟩, -⟩ := h
  intro hat
  rw [Option.mem_unique hstart hat] at hname
  exact absurd hname (by decide)

theorem isName_of_name? {cs name rest : List Char} (h : name? cs = some (name, rest)) :
    IsName name := by
  obtain ⟨⟨c, hc, hstart⟩, rfl, -⟩ := name?_eq_some.mp h
  obtain ⟨tail, rfl⟩ := List.head?_eq_some_iff.mp hc
  refine ⟨⟨c, ?_, hstart⟩, fun d hd => by simpa using List.mem_takeWhile_imp hd⟩
  rw [List.takeWhile_cons_of_pos (isWordChar_of_isNameStart hstart)]
  rfl

theorem name?_append {name rest : List Char} (hname : IsName name)
    (hrest : ∀ c ∈ rest.head?, isWordChar c = false) :
    name? (name ++ rest) = some (name, rest) := by
  obtain ⟨⟨c, hc, hstart⟩, hword⟩ := hname
  refine name?_eq_some.mpr ⟨⟨c, ?_, hstart⟩, ?_, ?_⟩
  · rw [List.head?_append, Option.mem_def.mp hc]
    rfl
  · exact (takeWhile_append_of_head hword hrest).symm
  · exact (dropWhile_append_of_head hword hrest).symm

theorem nameAndColon?_eq_some {cs name rest : List Char} :
    nameAndColon? cs = some (name, rest) ↔
      ∃ left, name? cs = some (name, left) ∧ trimStart left = ':' :: rest := by
  unfold nameAndColon?
  cases hname : name? cs with
  | none => simp
  | some r =>
    obtain ⟨found, left⟩ := r
    simp only [Option.some.injEq, Prod.mk.injEq]
    constructor
    · intro h
      split at h
      · next r' hleft =>
        cases h
        exact ⟨left, ⟨rfl, rfl⟩, hleft⟩
      · cases h
    · rintro ⟨_, ⟨rfl, rfl⟩, hleft⟩
      simp [hleft]

/-- A name with a colon right behind it. -/
theorem nameAndColon?_append {name : List Char} (hname : IsName name) (rest : List Char) :
    nameAndColon? (name ++ ':' :: rest) = some (name, rest) := by
  refine nameAndColon?_eq_some.mpr ⟨':' :: rest, name?_append hname ?_, rfl⟩
  intro c hc
  obtain rfl : ':' = c := Option.some.inj hc
  exact isWordChar_colon

theorem nameAndColon?_append_right {cs name rest : List Char}
    (h : nameAndColon? cs = some (name, rest)) (more : List Char) :
    nameAndColon? (cs ++ more) = some (name, rest ++ more) := by
  obtain ⟨left, hname, hcolon⟩ := nameAndColon?_eq_some.mp h
  obtain ⟨⟨c, hc, hstart⟩, rfl, rfl⟩ := name?_eq_some.mp hname
  have hleft : (cs.dropWhile isWordChar).dropWhile isBlank ≠ [] :=
    fun hempty => List.cons_ne_nil _ _ (hcolon.symm.trans hempty)
  have hne : cs.dropWhile isWordChar ≠ [] := by
    intro hempty
    exact hleft (by rw [hempty]; rfl)
  refine nameAndColon?_eq_some.mpr ⟨cs.dropWhile isWordChar ++ more, name?_eq_some.mpr ?_, ?_⟩
  · refine ⟨⟨c, ?_, hstart⟩, ?_, ?_⟩
    · rw [List.head?_append, Option.mem_def.mp hc]
      rfl
    · exact (takeWhile_append_of_rest hne more).symm
    · exact (dropWhile_append_of_rest hne more).symm
  · rw [trimStart, dropWhile_append_of_rest hleft]
    exact congrArg (· ++ more) hcolon

theorem isWordChar_head_of_nameAndColon? {cs : List Char} {r : List Char × List Char}
    (h : nameAndColon? cs = some r) : ∀ c ∈ cs.head?, isWordChar c = true := by
  obtain ⟨left, hname, -⟩ := nameAndColon?_eq_some.mp h
  obtain ⟨⟨start, hstart, hname⟩, -, -⟩ := name?_eq_some.mp hname
  intro c hc
  rw [Option.mem_unique hc hstart]
  exact isWordChar_of_isNameStart hname

theorem suffix_of_nameAndColon? {cs name rest : List Char}
    (h : nameAndColon? cs = some (name, rest)) : rest <:+ cs := by
  obtain ⟨left, hname, hleft⟩ := nameAndColon?_eq_some.mp h
  obtain ⟨-, -, rfl⟩ := name?_eq_some.mp hname
  calc rest <:+ ':' :: rest := List.suffix_cons _ _
    _ <:+ cs.dropWhile isWordChar := hleft ▸ trimStart_suffix _
    _ <:+ cs := List.dropWhile_suffix _

theorem nameAndColon?_colon (cs : List Char) : nameAndColon? (':' :: cs) = none := by
  simp [nameAndColon?, name?, show isNameStart ':' = false from rfl]

/-- Behind a name that has a colon comes nothing but the colon. -/
theorem head_of_wordOf?_of_nameAndColon? {allowed : List String} {cs name left rest : List Char}
    {word : String} (hname : nameAndColon? cs = some (name, left))
    (hword : wordOf? allowed cs = some (word, rest)) : rest = ':' :: left := by
  obtain ⟨behind, hfound, hcolon⟩ := nameAndColon?_eq_some.mp hname
  obtain ⟨-, -, rfl⟩ := name?_eq_some.mp hfound
  obtain ⟨-, -, hrest⟩ := wordOf?_eq_some.mp hword
  rw [(afterBlanks?_eq_some hrest).1, hcolon]

/-! ## Words before the name -/

/-- Between two places stand only allowed words, each with blanks behind it. -/
inductive Modified (allowed : List String) : List Char → List Char → Prop
  | none (cs : List Char) : Modified allowed cs cs
  | word {cs rest last : List Char} {word : String} (h : wordOf? allowed cs = some (word, rest))
      (hrest : Modified allowed rest last) : Modified allowed cs last

theorem Modified.mono {allowed allowed' : List String} {cs last : List Char}
    (h : Modified allowed cs last) (hsub : allowed ⊆ allowed') : Modified allowed' cs last := by
  induction h with
  | none cs => exact .none cs
  | word hword _ ih => exact .word (wordOf?_of_mem hword (hsub (wordOf?_eq_some.mp hword).2.1)) ih

theorem Modified.trans {allowed : List String} {cs mid last : List Char}
    (h : Modified allowed cs mid) (hlast : Modified allowed mid last) :
    Modified allowed cs last := by
  induction h with
  | none => exact hlast
  | word hword _ ih => exact .word hword (ih hlast)

theorem Modified.suffix {allowed : List String} {cs last : List Char}
    (h : Modified allowed cs last) : last <:+ cs := by
  induction h with
  | none cs => exact List.suffix_refl cs
  | word hword _ ih => exact ih.trans (suffix_of_wordOf? hword)

theorem Modified.append {allowed : List String} {cs last : List Char}
    (h : Modified allowed cs last) (hlast : last ≠ []) (more : List Char) :
    Modified allowed (cs ++ more) (last ++ more) := by
  induction h with
  | none cs => exact .none _
  | @word cs rest last word hword hrest ih =>
    have hne : rest ≠ [] := by
      rintro rfl
      exact hlast (List.suffix_nil.mp hrest.suffix)
    exact .word (wordOf?_append_right hword hne more) (ih hlast)

/-- Words in front of a word start like one. -/
theorem Modified.isWordChar_head {allowed : List String} {cs last : List Char}
    (hallowed : "" ∉ allowed) (h : Modified allowed cs last)
    (hlast : ∀ c ∈ last.head?, isWordChar c = true) : ∀ c ∈ cs.head?, isWordChar c = true := by
  cases h with
  | none => exact hlast
  | word hword =>
    intro c hc
    obtain ⟨rest, rfl⟩ := List.head?_eq_some_iff.mp hc
    cases hchar : isWordChar c with
    | true => rfl
    | false => simp [wordOf?_cons_eq_none hallowed hchar] at hword

/-- A reader that needs a name with a colon. -/
def ReadsName {α : Type} (finish : List Char → Option α) : Prop :=
  ∀ cs value, finish cs = some value → ∃ r, nameAndColon? cs = some r

section Readers

variable {α : Type} {allowed : List String} {finish : List Char → Option α}

theorem ReadsName.colon (hfinish : ReadsName finish) (cs : List Char) :
    finish (':' :: cs) = none := by
  cases h : finish (':' :: cs) with
  | none => rfl
  | some value =>
    obtain ⟨r, hr⟩ := hfinish _ _ h
    simp [nameAndColon?_colon] at hr

/-- Where a name has its colon, no word before the name is left. -/
theorem Modified.eq_of_nameAndColon? {cs last : List Char} {r r' : List Char × List Char}
    (hallowed : "" ∉ allowed) (h : Modified allowed cs last) (hcs : nameAndColon? cs = some r)
    (hlast : nameAndColon? last = some r') : last = cs := by
  cases h with
  | none => rfl
  | word hword hrest =>
    obtain rfl := head_of_wordOf?_of_nameAndColon? hcs hword
    cases hrest with
    | none => simp [nameAndColon?_colon] at hlast
    | word hword' => simp [wordOf?_cons_eq_none hallowed isWordChar_colon] at hword'

/-- Whatever words come before it, the name with the colon is the same. -/
theorem Modified.unique {allowed' : List String} {cs last last' : List Char}
    {r r' : List Char × List Char} (hallowed : "" ∉ allowed) (hallowed' : "" ∉ allowed')
    (h : Modified allowed cs last) (h' : Modified allowed' cs last')
    (hlast : nameAndColon? last = some r) (hlast' : nameAndColon? last' = some r') :
    last' = last := by
  induction h with
  | none cs => exact h'.eq_of_nameAndColon? hallowed' hlast hlast'
  | @word cs rest last word hword hrest ih =>
    cases h' with
    | none => exact ((Modified.word hword hrest).eq_of_nameAndColon? hallowed hlast' hlast).symm
    | word hword' hrest' =>
      obtain ⟨-, -, hleft⟩ := wordOf?_eq_some.mp hword
      obtain ⟨-, -, hleft'⟩ := wordOf?_eq_some.mp hword'
      cases hleft.symm.trans hleft'
      exact ih hrest' hlast

/-! ## The readers -/

theorem withModifiers_colon (hallowed : "" ∉ allowed) (hcolon : ∀ cs, finish (':' :: cs) = none)
    (fuel : Nat) (cs : List Char) : withModifiers allowed finish fuel (':' :: cs) = none := by
  cases fuel with
  | zero => simp [withModifiers, hcolon]
  | succ fuel =>
    simp [withModifiers, wordOf?_cons_eq_none hallowed isWordChar_colon, hcolon]

/-- Where a name has its colon, no modifier is read. The name itself may be one of the words, but
then nothing can be read behind it. -/
theorem withModifiers_of_name (hallowed : "" ∉ allowed) (hcolon : ∀ cs, finish (':' :: cs) = none)
    {cs : List Char} {r : List Char × List Char} {value : α} (hname : nameAndColon? cs = some r)
    (hfinish : finish cs = some value) (fuel : Nat) :
    withModifiers allowed finish fuel cs = some ([], value) := by
  cases fuel with
  | zero => simp [withModifiers, hfinish]
  | succ fuel =>
    rw [withModifiers]
    cases hword : wordOf? allowed cs with
    | none => simp [hfinish]
    | some found =>
      obtain ⟨word, rest⟩ := found
      obtain rfl := head_of_wordOf?_of_nameAndColon? hname hword
      simp [withModifiers_colon hallowed hcolon, hfinish]

/-- A reader goes on behind the words that it took, all of them allowed, and finishes there. -/
theorem modified_of_withModifiers {fuel : Nat} {cs : List Char} {words : List String} {value : α}
    (h : withModifiers allowed finish fuel cs = some (words, value)) :
    words ⊆ allowed ∧ ∃ last, Modified words cs last ∧ finish last = some value := by
  induction fuel generalizing cs words with
  | zero =>
    obtain ⟨v, hv, he⟩ := Option.map_eq_some_iff.mp h
    cases he
    exact ⟨List.nil_subset _, cs, .none cs, hv⟩
  | succ fuel ih =>
    have hhere : (finish cs).map (fun v => (([] : List String), v)) = some (words, value) →
        words ⊆ allowed ∧ ∃ last, Modified words cs last ∧ finish last = some value := by
      intro hh
      obtain ⟨v, hv, he⟩ := Option.map_eq_some_iff.mp hh
      cases he
      exact ⟨List.nil_subset _, cs, .none cs, hv⟩
    rw [withModifiers] at h
    split at h
    · exact hhere h
    · next word rest hword =>
      split at h
      · next words' value' hrest =>
        cases h
        obtain ⟨hsub, last, hmod, hlast⟩ := ih hrest
        refine ⟨List.cons_subset.mpr ⟨(wordOf?_eq_some.mp hword).2.1, hsub⟩, last, ?_, hlast⟩
        exact .word (wordOf?_of_mem hword List.mem_cons_self)
          (hmod.mono (List.subset_cons_self _ _))
      · exact hhere h

/-- A reader that can finish behind words that it is allowed to take does so. -/
theorem withModifiers_of_modified (hallowed : "" ∉ allowed) (hfinish : ReadsName finish)
    {cs last : List Char} {value : α} (h : Modified allowed cs last)
    (hlast : finish last = some value) {fuel : Nat} (hfuel : cs.length ≤ fuel) :
    ∃ words, withModifiers allowed finish fuel cs = some (words, value) := by
  induction h generalizing fuel with
  | none cs =>
    obtain ⟨r, hname⟩ := hfinish _ _ hlast
    exact ⟨[], withModifiers_of_name hallowed hfinish.colon hname hlast fuel⟩
  | @word cs rest last word hword _ ih =>
    have hlt := length_lt_of_wordOf? hword
    obtain ⟨fuel, rfl⟩ : ∃ n, fuel = n + 1 := ⟨fuel - 1, by omega⟩
    obtain ⟨words, hwords⟩ := ih hlast (show rest.length ≤ fuel by omega)
    exact ⟨word :: words, by simp [withModifiers, hword, hwords]⟩

theorem isSome_withModifiers {cs last : List Char} (h : Modified allowed cs last)
    (hlast : (finish last).isSome = true) {fuel : Nat} (hfuel : cs.length ≤ fuel) :
    (withModifiers allowed finish fuel cs).isSome = true := by
  induction h generalizing fuel with
  | none cs =>
    cases fuel with
    | zero => rwa [withModifiers, Option.isSome_map]
    | succ fuel =>
      rw [withModifiers]
      split
      · rwa [Option.isSome_map]
      · split
        · rfl
        · rwa [Option.isSome_map]
  | @word cs rest last word hword _ ih =>
    have hlt := length_lt_of_wordOf? hword
    obtain ⟨fuel, rfl⟩ : ∃ n, fuel = n + 1 := ⟨fuel - 1, by omega⟩
    obtain ⟨⟨words, value⟩, hread⟩ :=
      Option.isSome_iff_exists.mp (ih hlast (show rest.length ≤ fuel by omega))
    simp [withModifiers, hword, hread]

/-- Modifiers can be read if the reader can finish behind some of them. -/
theorem isSome_modifiersThen_iff {cs : List Char} :
    (modifiersThen allowed finish cs).isSome = true ↔
      ∃ last, Modified allowed cs last ∧ (finish last).isSome = true := by
  constructor
  · intro h
    obtain ⟨⟨words, value⟩, hread⟩ := Option.isSome_iff_exists.mp h
    obtain ⟨hsub, last, hmod, hlast⟩ := modified_of_withModifiers hread
    exact ⟨last, hmod.mono hsub, Option.isSome_of_eq_some hlast⟩
  · intro ⟨last, hmod, hlast⟩
    exact isSome_withModifiers hmod hlast (Nat.le_refl _)

/-- A reader of names finishes where the name is, whichever way one gets there. -/
theorem finish_eq_of_modified (hallowed : "" ∉ allowed) (hfinish : ReadsName finish)
    {cs last : List Char} {r : List Char × List Char} (h : Modified allowed cs last)
    (hlast : nameAndColon? last = some r) :
    (modifiersThen allowed finish cs).map Prod.snd = finish last := by
  unfold modifiersThen
  cases hread : withModifiers allowed finish cs.length cs with
  | some found =>
    obtain ⟨words, value⟩ := found
    obtain ⟨hsub, last', hmod, hlast'⟩ := modified_of_withModifiers hread
    obtain ⟨r', hr'⟩ := hfinish _ _ hlast'
    rw [← h.unique hallowed hallowed (hmod.mono hsub) hlast hr', hlast']
    rfl
  | none =>
    cases hvalue : finish last with
    | none => rfl
    | some value =>
      obtain ⟨words, hwords⟩ :=
        withModifiers_of_modified hallowed hfinish h hvalue (Nat.le_refl cs.length)
      simp [hread] at hwords

/-! ## Property words -/

theorem isSome_optionalPropertyWord_iff {cs : List Char} :
    (optionalPropertyWord finish cs).isSome = true ↔ (finish cs).isSome = true ∨
      ∃ word rest, wordOf? propertyWords cs = some (word, rest) ∧ (finish rest).isSome = true := by
  unfold optionalPropertyWord
  cases hword : wordOf? propertyWords cs with
  | none => simp
  | some found =>
    obtain ⟨word, rest⟩ := found
    cases hrest : finish rest with
    | none => simp [hrest]
    | some value => simp [hrest]

theorem optionalPropertyWord_colon (hcolon : ∀ cs, finish (':' :: cs) = none) (cs : List Char) :
    optionalPropertyWord finish (':' :: cs) = none := by
  have hwords : "" ∉ propertyWords := by decide
  simp [optionalPropertyWord, wordOf?_cons_eq_none hwords isWordChar_colon, hcolon]

/-- Where a name has its colon, neither `val` nor `var` is read. -/
theorem optionalPropertyWord_of_name (hcolon : ∀ cs, finish (':' :: cs) = none) {cs : List Char}
    {r : List Char × List Char} {value : α} (hname : nameAndColon? cs = some r)
    (hfinish : finish cs = some value) :
    optionalPropertyWord finish cs = some (false, value) := by
  unfold optionalPropertyWord
  cases hword : wordOf? propertyWords cs with
  | none => simp [hfinish]
  | some found =>
    obtain ⟨word, rest⟩ := found
    obtain rfl := head_of_wordOf?_of_nameAndColon? hname hword
    simp [hcolon, hfinish]

end Readers

end ComponentWiring.Source

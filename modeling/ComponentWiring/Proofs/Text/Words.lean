import Mathlib.Data.List.TakeWhile
import ComponentWiring.Proofs.Text.Cutting
import ComponentWiring.Text.WordChar

/-!
Words in a text: the maximal stretches of word characters. A reader that looks for certain words
finds none in a text that is free of them, and a text is free of a word if its pieces are, wherever
something other than a word character separates them.
-/

namespace ComponentWiring.Text

/-! ## Blanks are no word characters -/

/-- The code points of the blanks. -/
def blankCodes : List Nat :=
  [9, 10, 11, 12, 13, 0x20, 0x85, 0xA0, 0x1680, 0x2000, 0x2001, 0x2002, 0x2003, 0x2004, 0x2005,
    0x2006, 0x2007, 0x2008, 0x2009, 0x200A, 0x2028, 0x2029, 0x202F, 0x205F, 0x3000]

theorem mem_blankCodes {c : Char} (hc : isBlank c = true) : c.toNat ∈ blankCodes := by
  have hlow : ∀ n ≤ 4, 9 + n ∈ blankCodes := by decide
  have hhigh : ∀ n ≤ 10, 0x2000 + n ∈ blankCodes := by decide
  simp only [isBlank, Bool.or_eq_true, Bool.and_eq_true, beq_iff_eq, decide_eq_true_eq,
    or_assoc] at hc
  rcases hc with ⟨hle, hle'⟩ | hc | hc | hc | hc | ⟨hle, hle'⟩ | hc | hc | hc | hc | hc
  case inl =>
    obtain ⟨n, hn⟩ := Nat.exists_eq_add_of_le hle
    exact hn ▸ hlow n (by omega)
  case inr.inr.inr.inr.inr.inl =>
    obtain ⟨n, hn⟩ := Nat.exists_eq_add_of_le hle
    exact hn ▸ hhigh n (by omega)
  all_goals exact hc ▸ by decide

theorem isWordChar_of_isBlank {c : Char} (hc : isBlank c = true) : isWordChar c = false := by
  have hall : ∀ code ∈ blankCodes, isWordChar (Char.ofNat code) = false := by decide +kernel
  simpa [Char.ofNat_toNat] using hall c.toNat (mem_blankCodes hc)

theorem isBlank_of_isWordChar {c : Char} (hc : isWordChar c = true) : isBlank c = false := by
  cases hblank : isBlank c with
  | false => rfl
  | true => rw [isWordChar_of_isBlank hblank] at hc; cases hc

/-! ## Words -/

/-- The stretches between the characters that belong to no word, empty ones included. -/
def wordRuns (cs : List Char) : List (List Char) :=
  cs.splitOnP fun c => !isWordChar c

theorem wordRuns_append_cons {c : Char} (hc : isWordChar c = false) (as bs : List Char) :
    wordRuns (as ++ c :: bs) = wordRuns as ++ wordRuns bs :=
  List.splitOnP_append_cons _ _ (by simp [hc])

/-- The first stretch is the word at the start of the text, possibly empty. -/
theorem head?_wordRuns (cs : List Char) : (wordRuns cs).head? = some (cs.takeWhile isWordChar) := by
  induction cs with
  | nil => rfl
  | cons c cs ih =>
    rw [wordRuns, List.splitOnP_cons_eq_if_modifyHead]
    cases hc : isWordChar c with
    | true =>
      rw [wordRuns] at ih
      simp [List.head?_modifyHead, hc, ih]
    | false => simp [hc]

theorem takeWhile_mem_wordRuns (cs : List Char) : cs.takeWhile isWordChar ∈ wordRuns cs :=
  List.mem_of_head? (head?_wordRuns cs)

/-- A text of word characters is one word. -/
theorem wordRuns_of_forall {cs : List Char} (h : ∀ c ∈ cs, isWordChar c = true) :
    wordRuns cs = [cs] :=
  List.splitOnP_eq_singleton fun c hc => by simp [h c hc]

/-- A text behind a character that belongs to no word has no words but those of the whole text. -/
theorem wordRuns_subset {c : Char} {as bs : List Char} (hc : isWordChar c = false) :
    wordRuns bs ⊆ wordRuns (as ++ c :: bs) := by
  rw [wordRuns_append_cons hc]
  exact List.subset_append_right _ _

/-- The same at a place in front of which no word is being read. -/
theorem wordRuns_subset_append {as bs : List Char}
    (has : ∀ c ∈ as.getLast?, isWordChar c = false) : wordRuns bs ⊆ wordRuns (as ++ bs) := by
  rcases List.eq_nil_or_concat as with rfl | ⟨as, c, rfl⟩
  · exact List.Subset.refl _
  · rw [List.concat_eq_append, List.append_assoc]
    exact wordRuns_subset (has c (by simp))

theorem takeWhile_append_cons {c : Char} (hc : isWordChar c = false) (as bs : List Char) :
    (as ++ c :: bs).takeWhile isWordChar = as.takeWhile isWordChar := by
  induction as with
  | nil => simp [hc]
  | cons a as ih => simp only [List.cons_append, List.takeWhile_cons, ih]

/-- A word ends within a text that does not end with a word. -/
theorem takeWhile_append_of_last {as : List Char} (has : ∃ c ∈ as.getLast?, isWordChar c = false)
    (bs : List Char) : (as ++ bs).takeWhile isWordChar = as.takeWhile isWordChar := by
  obtain ⟨c, hc, hword⟩ := has
  obtain ⟨front, rfl⟩ := List.getLast?_eq_some_iff.mp hc
  rw [List.append_assoc, List.singleton_append, takeWhile_append_cons hword,
    takeWhile_append_cons hword]

theorem wordRuns_subset_of_afterBlanks? {cs left rest : List Char} (hleft : left <:+ cs)
    (h : afterBlanks? left = some rest) : wordRuns rest ⊆ wordRuns cs := by
  obtain ⟨before, c, hc, rfl⟩ := exists_of_afterBlanks? h
  obtain ⟨as, rfl⟩ := hleft
  rw [← List.append_assoc]
  exact wordRuns_subset (isWordChar_of_isBlank hc)

/-- None of the given words stands in the text. -/
def FreeOf (words : List String) (cs : List Char) : Prop :=
  ∀ run ∈ wordRuns cs, String.ofList run ∉ words

instance (words : List String) (cs : List Char) : Decidable (FreeOf words cs) :=
  inferInstanceAs (Decidable (∀ run ∈ wordRuns cs, String.ofList run ∉ words))

section FreeOf

variable {words : List String} {as bs cs : List Char} {c : Char}

theorem freeOf_append_cons (hc : isWordChar c = false) :
    FreeOf words (as ++ c :: bs) ↔ FreeOf words as ∧ FreeOf words bs := by
  simp only [FreeOf, wordRuns_append_cons hc, List.forall_mem_append]

theorem freeOf_word (h : ∀ c ∈ cs, isWordChar c = true) :
    FreeOf words cs ↔ String.ofList cs ∉ words := by
  simp [FreeOf, wordRuns_of_forall h]

theorem freeOf_nil : FreeOf words [] ↔ "" ∉ words := by
  simp [FreeOf, wordRuns]

theorem freeOf_cons (hc : isWordChar c = false) :
    FreeOf words (c :: bs) ↔ "" ∉ words ∧ FreeOf words bs := by
  rw [← freeOf_nil]
  show FreeOf words ([] ++ c :: bs) ↔ _
  exact freeOf_append_cons hc

theorem FreeOf.mono {words' : List String} (h : FreeOf words cs) (hsub : words' ⊆ words) :
    FreeOf words' cs :=
  fun run hrun hmem => h run hrun (hsub hmem)

end FreeOf

end ComponentWiring.Text

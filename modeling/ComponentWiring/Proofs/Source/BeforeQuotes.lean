import ComponentWiring.Proofs.Source.ClassHeads
import ComponentWiring.Proofs.Source.Markers
import ComponentWiring.Proofs.Text.Stops

/-!
Reading in front of a quote. No name, blank or keyword goes on over a quote, so that the readers of
these take it for the end of the text. Only the arguments of an annotation can hold one; a reader of
annotations stops in front of the quote if it leaves the quote (`stopsBefore_annotation?`), and so
do the readers of a class head (`classHead?_append_quote`) and of the keyword of a constructor
(`stopsBefore_constructorPrefix?`).
-/

namespace ComponentWiring.Source

open Text

theorem class_of_isQuote {p : Char → Bool} (hp : "\"'".toList.any p = false) {c : Char}
    (hc : isQuote c = true) : p c = false := by
  cases h : p c with
  | false => rfl
  | true => exact absurd hc (by simp [isQuote_of_class hp h])

/-- A quote is none of the other characters. -/
theorem ne_of_isQuote {c d : Char} (hc : isQuote c = true) (hd : isQuote d = false) : c ≠ d := by
  rintro rfl
  exact Bool.false_ne_true (hd.symm.trans hc)

section Quote

variable {quote : Char} (hquote : isQuote quote = true) {tail : List Char}

include hquote

theorem takeWhile_append_quote {p : Char → Bool} (hp : "\"'".toList.any p = false)
    (front : List Char) : (front ++ quote :: tail).takeWhile p = front.takeWhile p :=
  takeWhile_append_of_stop (by simpa using class_of_isQuote hp hquote) front

theorem dropWhile_append_quote {p : Char → Bool} (hp : "\"'".toList.any p = false)
    (front : List Char) :
    (front ++ quote :: tail).dropWhile p = front.dropWhile p ++ quote :: tail :=
  dropWhile_append_of_stop (by simpa using class_of_isQuote hp hquote) front

theorem trimStart_append_quote (front : List Char) :
    trimStart (front ++ quote :: tail) = trimStart front ++ quote :: tail :=
  dropWhile_append_quote hquote (by decide) front

/-! ## Words -/

theorem afterBlanks?_append_quote (front : List Char) :
    afterBlanks? (front ++ quote :: tail) = (afterBlanks? front).map (· ++ quote :: tail) := by
  cases front with
  | nil =>
    have hblank : isBlank quote = false := class_of_isQuote (by decide) hquote
    simp [afterBlanks?, hblank]
  | cons c front =>
    simp only [List.cons_append, afterBlanks?, trimStart_append_quote hquote]
    split_ifs <;> rfl

theorem dropText?_append_quote {needle : List Char} (hneedle : ∀ c ∈ needle, isQuote c = false)
    (front : List Char) :
    dropText? needle (front ++ quote :: tail) =
      (dropText? needle front).map (· ++ quote :: tail) := by
  have hmem : quote ∉ needle := fun h => Bool.false_ne_true ((hneedle _ h).symm.trans hquote)
  have hiff : needle.isPrefixOf (front ++ quote :: tail) = needle.isPrefixOf front := by
    rw [Bool.eq_iff_iff, List.isPrefixOf_iff_prefix, List.isPrefixOf_iff_prefix,
      prefix_append_cons_iff hmem]
  unfold dropText?
  rw [hiff]
  split_ifs with hprefix
  · have hle := (List.isPrefixOf_iff_prefix.mp hprefix).length_le
    rw [List.drop_append_of_le_length hle]
    rfl
  · rfl

theorem wordOf?_append_quote (allowed : List String) (front : List Char) :
    wordOf? allowed (front ++ quote :: tail) =
      (wordOf? allowed front).map fun r => (r.1, r.2 ++ quote :: tail) := by
  unfold wordOf?
  simp only [takeWhile_append_quote hquote (p := isWordChar) (by decide),
    dropWhile_append_quote hquote (p := isWordChar) (by decide), afterBlanks?_append_quote hquote]
  split_ifs
  · simp [Function.comp_def]
  · rfl

theorem name?_append_quote (front : List Char) :
    name? (front ++ quote :: tail) = (name? front).map fun r => (r.1, r.2 ++ quote :: tail) := by
  cases front with
  | nil => simp [name?, class_of_isQuote (p := isNameStart) (by decide) hquote]
  | cons c front =>
    simp only [List.cons_append, name?, takeWhile_append_quote hquote (p := isWordChar) (by decide),
      dropWhile_append_quote hquote (p := isWordChar) (by decide)]
    split_ifs <;> rfl

theorem readAll_wordOf?_append_quote (allowed : List String) (front : List Char) :
    readAll (wordOf? allowed) (front ++ quote :: tail) =
      ((readAll (wordOf? allowed) front).1,
        (readAll (wordOf? allowed) front).2 ++ quote :: tail) :=
  readAll_append (fun _ _ h => length_lt_of_wordOf? h) (wordOf?_append_quote hquote allowed) front

/-! ## Annotations -/

/-- An argument list is skipped in front of the quote, or it reaches beyond it and nothing is
skipped in front. -/
theorem afterPlainArguments_append_quote (front tail : List Char) :
    afterPlainArguments (front ++ quote :: tail) = afterPlainArguments front ++ quote :: tail ∨
      (∃ inside, afterPlainArguments front = '(' :: inside) ∧
        (afterPlainArguments (front ++ quote :: tail)).length ≤ tail.length := by
  cases front with
  | nil =>
    have hne : quote ≠ '(' := ne_of_isQuote hquote rfl
    left
    rw [List.nil_append, afterPlainArguments]
    · rfl
    · exact fun rest heq => hne (List.cons.inj heq).1
  | cons c front =>
    by_cases hopen : c = '('
    · subst hopen
      have hparen : (quote == '(' || quote == ')') = false :=
        class_of_isQuote (p := fun c => c == '(' || c == ')') (by decide) hquote
      have hpass : (quote != '(' && quote != ')') = true := by
        rw [Bool.or_eq_false_iff] at hparen
        simp only [bne, hparen]
        rfl
      cases hrest : front.dropWhile (fun c => c != '(' && c != ')') with
      | cons stop after =>
        left
        have hdrop := dropWhile_append_of_rest (by rw [hrest]; simp) (quote :: tail)
        rw [hrest] at hdrop
        simp only [List.cons_append, afterPlainArguments, hdrop, hrest]
        split <;> simp_all
      | nil =>
        have hall : ∀ d ∈ front, (fun c : Char => c != '(' && c != ')') d = true :=
          List.dropWhile_eq_nil_iff.mp hrest
        have hdrop : (front ++ quote :: tail).dropWhile (fun c => c != '(' && c != ')') =
            tail.dropWhile (fun c => c != '(' && c != ')') := by
          rw [List.dropWhile_append_of_pos hall]
          exact List.dropWhile_cons_of_pos hpass
        simp only [List.cons_append, afterPlainArguments, hdrop, hrest]
        split
        · next after hafter =>
          right
          refine ⟨⟨front, rfl⟩, ?_⟩
          have hlength :=
            (List.dropWhile_suffix (fun c => c != '(' && c != ')') (l := tail)).length_le
          rw [hafter, List.length_cons] at hlength
          omega
        · exact .inl rfl
    · left
      rw [List.cons_append, afterPlainArguments, afterPlainArguments]
      · rfl
      · exact fun rest heq => hopen (List.cons.inj heq).1
      · exact fun rest heq => hopen (List.cons.inj heq).1

theorem stopsBefore_annotation? : StopsBefore (quote :: tail) annotation? := by
  intro part value left
  cases part with
  | nil =>
    have hat : '@' ∉ (quote :: tail).head? :=
      fun h => ne_of_isQuote hquote (d := '@') rfl (Option.some.inj h)
    rw [List.nil_append, annotation?, annotationWith?_of_head hat,
      annotationWith?_of_head (by simp)]
    simp
  | cons c part =>
    by_cases hsign : c = '@'
    · subst hsign
      have hsite : afterUseSite (part ++ quote :: tail) = afterUseSite part ++ quote :: tail :=
        afterUseSite_append (by simpa using class_of_isQuote (by decide) hquote) part
      unfold annotation? annotationWith?
      simp only [List.cons_append, hsite,
        takeWhile_append_quote hquote (p := isDottedChar) (by decide),
        dropWhile_append_quote hquote (p := isDottedChar) (by decide)]
      split_ifs
      · simp
      · generalize (afterUseSite part).dropWhile isDottedChar = named
        rcases afterPlainArguments_append_quote hquote named tail with
          heq | ⟨⟨inside, hinside⟩, hlength⟩
        · have hcut (left : List Char) : ('@' :: (part ++ quote :: tail)).take
              (('@' :: (part ++ quote :: tail)).length - (left ++ quote :: tail).length) =
                ('@' :: part).take (('@' :: part).length - left.length) := by
            have hlength : ('@' :: (part ++ quote :: tail)).length -
                (left ++ quote :: tail).length = ('@' :: part).length - left.length := by
              simp only [List.length_cons, List.length_append]
              omega
            rw [hlength, ← List.cons_append, List.take_append_of_le_length (Nat.sub_le _ _)]
          rw [heq, afterBlanks?_append_quote hquote, hcut]
          cases afterBlanks? (afterPlainArguments named) <;> simp
        · -- The arguments hold the quote: alone, the text in front has no annotation.
          rw [hinside]
          constructor
          · intro h
            obtain ⟨after, hafter, heq⟩ := Option.map_eq_some_iff.mp h
            obtain ⟨-, rfl⟩ := Prod.mk.inj heq
            have hshort := (afterBlanks?_eq_some hafter).2
            simp only [List.length_append, List.length_cons] at hshort
            omega
          · intro h
            simp [afterBlanks?, show isBlank '(' = false from rfl] at h
    · have hat (cs : List Char) : annotation? (c :: cs) = none :=
        annotationWith?_of_head (by simpa using hsign)
      simp [hat]

/-- The annotations in front of a quote end there if they leave it. -/
theorem annotations_append_quote_of_suffix {front : List Char}
    (h : quote :: tail <:+ (annotations (front ++ quote :: tail)).2) :
    annotations (front ++ quote :: tail) =
      ((annotations front).1, (annotations front).2 ++ quote :: tail) := by
  refine readAll_append_of_suffix length_lt_of_annotation? (stopsBefore_annotation? hquote) ?_ h
  intro cs r hr
  obtain ⟨left, hleft, hrest⟩ := exists_of_annotation? hr
  exact (afterBlanks?_suffix hrest).trans hleft

/-- They end there too if something else follows them in front of it. -/
theorem annotations_append_quote_of_head {front : List Char} (hne : (annotations front).2 ≠ [])
    (h : '@' ∉ (annotations front).2.head?) :
    annotations (front ++ quote :: tail) =
      ((annotations front).1, (annotations front).2 ++ quote :: tail) := by
  refine readAll_append_of_none length_lt_of_annotation? (stopsBefore_annotation? hquote) ?_
  rw [← List.head?_append_of_ne_nil _ hne] at h
  exact annotationWith?_of_head h

/-! ## Class heads -/

theorem classHead?_append_quote {previous : Option Char} {front : List Char}
    (h : annotations (front ++ quote :: tail) =
      ((annotations front).1, (annotations front).2 ++ quote :: tail)) :
    classHead? previous (front ++ quote :: tail) =
      (classHead? previous front).map fun r => (r.1, r.2 ++ quote :: tail) := by
  unfold classHead?
  split_ifs
  · simp only [h, readAll_wordOf?_append_quote hquote, wordOf?_append_quote hquote,
      Option.bind_eq_bind, Option.bind_map, Option.map_bind, Function.comp_def,
      name?_append_quote hquote]
    rfl
  · rfl

omit hquote in
theorem head_of_wordOf? {allowed : List String} (hallowed : "" ∉ allowed) {cs : List Char}
    {r : String × List Char} (h : wordOf? allowed cs = some r) :
    ∃ c ∈ cs.head?, isWordChar c = true := by
  cases cs with
  | nil => simp [wordOf?, hallowed] at h
  | cons c cs =>
    refine ⟨c, rfl, ?_⟩
    cases hc : isWordChar c with
    | true => rfl
    | false => simp [wordOf?_cons_eq_none hallowed hc] at h

omit hquote in
/-- A word with other words in front of it starts like one. -/
theorem head_of_readAll_wordOf? {allowed words : List String} (hallowed : "" ∉ allowed)
    (hwords : "" ∉ words) {cs : List Char} {r : String × List Char}
    (h : wordOf? words (readAll (wordOf? allowed) cs).2 = some r) :
    ∃ c ∈ cs.head?, isWordChar c = true := by
  cases hfirst : wordOf? allowed cs with
  | some first => exact head_of_wordOf? hallowed hfirst
  | none =>
    rw [readAll_eq_of_none hfirst] at h
    exact head_of_wordOf? hwords h

omit hquote in
theorem not_at_of_word {cs : List Char} (h : ∃ c ∈ cs.head?, isWordChar c = true) :
    cs ≠ [] ∧ '@' ∉ cs.head? := by
  obtain ⟨c, hc, hword⟩ := h
  refine ⟨?_, fun hat => ?_⟩
  · rintro rfl
    cases hc
  · rw [Option.mem_unique hc hat] at hword
    cases hword

theorem stopsBefore_classHead? (previous : Option Char) :
    StopsBefore (quote :: tail) (classHead? previous) := by
  intro front head left
  constructor
  · intro h
    have hleft : quote :: tail <:+ (annotations (front ++ quote :: tail)).2 := by
      obtain ⟨-, -, word, behind, hword, hname⟩ := classHead?_eq_some h
      obtain ⟨-, -, hleft⟩ := name?_eq_some.mp hname
      calc quote :: tail <:+ left ++ quote :: tail := List.suffix_append _ _
        _ <:+ behind := hleft ▸ List.dropWhile_suffix _
        _ <:+ _ := suffix_of_wordOf? hword
        _ <:+ _ := readAll_suffix (fun _ _ hr => suffix_of_wordOf? hr) _
    rw [classHead?_append_quote hquote (annotations_append_quote_of_suffix hquote hleft)] at h
    exact map_append_eq_some_iff.mp h
  · intro h
    obtain ⟨-, -, _, _, hword, -⟩ := classHead?_eq_some h
    obtain ⟨hne, hat⟩ := not_at_of_word (head_of_readAll_wordOf? (by decide) (by decide) hword)
    rw [classHead?_append_quote hquote (annotations_append_quote_of_head hquote hne hat), h]
    rfl

/-! ## Constructors -/

theorem constructorPrefix?_append_quote {front : List Char}
    (h : annotations (front ++ quote :: tail) =
      ((annotations front).1, (annotations front).2 ++ quote :: tail)) :
    constructorPrefix? (front ++ quote :: tail) =
      (constructorPrefix? front).map fun r => (r.1, r.2 ++ quote :: tail) := by
  have hkeyword : ∀ c ∈ "constructor".toList, isQuote c = false := by decide
  simp only [constructorPrefix?, h, wordOf?_append_quote hquote]
  cases wordOf? constructorModifiers (annotations front).2 with
  | none =>
    simp only [Option.map_none, dropText?_append_quote hquote hkeyword, Option.map_map,
      Function.comp_def, trimStart_append_quote hquote]
  | some r =>
    simp only [Option.map_some, dropText?_append_quote hquote hkeyword, Option.map_map,
      Function.comp_def, trimStart_append_quote hquote]

omit hquote in
/-- The keyword of a constructor stands behind annotations, at once or behind one word. -/
theorem exists_of_constructorPrefix? {cs rest : List Char} {visibility : Visibility}
    (h : constructorPrefix? cs = some (visibility, rest)) :
    ∃ left, trimStart left = rest ∧ ((annotations cs).2 = "constructor".toList ++ left ∨
      ∃ word, wordOf? constructorModifiers (annotations cs).2 =
        some (word, "constructor".toList ++ left)) := by
  simp only [constructorPrefix?] at h
  obtain ⟨left, hleft, heq⟩ := Option.map_eq_some_iff.mp h
  refine ⟨left, (Prod.mk.inj heq).2, ?_⟩
  have hkeyword := dropText?_eq_some.mp hleft
  split at hkeyword
  · next word behind hword => exact .inr ⟨word, by rw [hword, ← hkeyword]⟩
  · exact .inl hkeyword

theorem stopsBefore_constructorPrefix? : StopsBefore (quote :: tail) constructorPrefix? := by
  intro front visibility left
  constructor
  · intro h
    have hleft : quote :: tail <:+ (annotations (front ++ quote :: tail)).2 := by
      obtain ⟨behind, hbehind, hkeyword⟩ := exists_of_constructorPrefix? h
      have hsuffix :
          "constructor".toList ++ behind <:+ (annotations (front ++ quote :: tail)).2 := by
        rcases hkeyword with heq | ⟨word, hword⟩
        · exact heq ▸ List.suffix_refl _
        · exact suffix_of_wordOf? hword
      calc quote :: tail <:+ left ++ quote :: tail := List.suffix_append _ _
        _ <:+ behind := hbehind ▸ trimStart_suffix behind
        _ <:+ "constructor".toList ++ behind := List.suffix_append _ _
        _ <:+ _ := hsuffix
    rw [constructorPrefix?_append_quote hquote (annotations_append_quote_of_suffix hquote hleft)]
      at h
    exact map_append_eq_some_iff.mp h
  · intro h
    have hhead : ∃ c ∈ (annotations front).2.head?, isWordChar c = true := by
      obtain ⟨behind, -, heq | ⟨word, hword⟩⟩ := exists_of_constructorPrefix? h
      · exact ⟨'c', by rw [heq]; rfl, by decide⟩
      · exact head_of_wordOf? (by decide) hword
    obtain ⟨hne, hat⟩ := not_at_of_word hhead
    rw [constructorPrefix?_append_quote hquote (annotations_append_quote_of_head hquote hne hat), h]
    rfl

end Quote

end ComponentWiring.Source

import ComponentWiring.Proofs.Source.Modifiers
import ComponentWiring.Proofs.Text.Occurrences
import ComponentWiring.Source.Imports

/-!
The package line and the import lines of a text that is written line by line. Both are looked for at
the starts of lines only, so that it is enough to know how each line starts: a line that starts with
another word than `import` holds no import (`importLine?_eq_none`), and a line that is an import is
read as one (`importLine?_append`). `ofText_unlines` puts the lines together.
-/

namespace ComponentWiring.Source

open Text

/-- Lines, each with its line break. -/
def unlines (lines : List (List Char)) : List Char :=
  lines.flatMap fun line => line ++ ['\n']

@[simp] theorem unlines_nil : unlines [] = [] := rfl

@[simp] theorem unlines_cons (line : List Char) (lines : List (List Char)) :
    unlines (line :: lines) = line ++ '\n' :: unlines lines := by
  simp [unlines]

theorem unlines_append (lines lines' : List (List Char)) :
    unlines (lines ++ lines') = unlines lines ++ unlines lines' :=
  List.flatMap_append

theorem mem_unlines {lines : List (List Char)} {c : Char} (h : c ∈ unlines lines) :
    c = '\n' ∨ ∃ line ∈ lines, c ∈ line := by
  obtain ⟨line, hline, hc⟩ := List.mem_flatMap.mp h
  rw [List.mem_append, List.mem_singleton] at hc
  exact hc.symm.imp id fun hc => ⟨line, hline, hc⟩

theorem getLast?_unlines {lines : List (List Char)} (h : lines ≠ []) :
    (unlines lines).getLast? = some '\n' := by
  rcases List.eq_nil_or_concat lines with rfl | ⟨front, line, rfl⟩
  · exact absurd rfl h
  · rw [List.concat_eq_append, unlines_append, unlines_cons, unlines_nil, ← List.append_assoc,
      List.getLast?_concat]

theorem lineBreaks_unlines {lines : List (List Char)} (h : ∀ line ∈ lines, '\n' ∉ line) :
    lineBreaks (unlines lines) = lines.length := by
  induction lines with
  | nil => rfl
  | cons line lines ih =>
    obtain ⟨hline, hlines⟩ := List.forall_mem_cons.mp h
    have hrest : (unlines lines).count '\n' = lines.length := ih hlines
    rw [unlines_cons, lineBreaks, List.count_append, List.count_eq_zero.mpr hline,
      List.count_cons_self, hrest, Nat.zero_add, List.length_cons]

theorem freeOf_unlines {words : List String} (hwords : "" ∉ words) {lines : List (List Char)}
    (h : ∀ line ∈ lines, FreeOf words line) : FreeOf words (unlines lines) := by
  induction lines with
  | nil => exact freeOf_nil.mpr hwords
  | cons line lines ih =>
    obtain ⟨hline, hlines⟩ := List.forall_mem_cons.mp h
    rw [unlines_cons]
    exact (freeOf_append_cons (by decide)).mpr ⟨hline, ih hlines⟩

/-! ## Line by line -/

/-- A place at the start of a line. -/
def AtLineStart (previous : Option Char) : Prop :=
  ∀ c ∈ previous, c = '\n'

section Lines

variable {α : Type} {reader : List Char → Option (α × List Char)} {previous : Option Char}
  {line rest : List Char}

theorem atLineStart_eq (h : AtLineStart previous) (cs : List Char) :
    atLineStart reader previous cs = reader (trimStart cs) := by
  unfold atLineStart
  split
  · rfl
  · rfl
  · next c hc => exact absurd (h c rfl) (by simpa using hc)

theorem atLineStart_eq_none {c : Char} (hc : c ≠ '\n') (cs : List Char) :
    atLineStart reader (some c) cs = none := by
  unfold atLineStart
  split <;> simp_all

omit reader previous rest in
/-- In front of a place of a line and its end stands nothing but the line. -/
theorem subset_of_concat_eq {before after : List Char} {c stop : Char}
    (h : line ++ [stop] = before ++ c :: after) : before ⊆ line := by
  have hlength := congrArg List.length h
  simp only [List.length_append, List.length_cons, List.length_nil] at hlength
  have hprefix : before <+: line ++ [stop] := ⟨c :: after, h.symm⟩
  exact (List.prefix_of_prefix_length_le hprefix (List.prefix_append _ _) (by omega)).subset

/-- A line that the reader does not take. -/
theorem occurrencesFrom_line_none (hprevious : AtLineStart previous) (hline : '\n' ∉ line)
    (h : reader (trimStart (line ++ '\n' :: rest)) = none) (offset : Nat) :
    occurrencesFrom (atLineStart reader) 0 offset previous (line ++ '\n' :: rest) =
      occurrencesFrom (atLineStart reader) 0 (offset + byteLength line + 1) (some '\n') rest := by
  have hnone : ∀ before c after, line ++ ['\n'] = before ++ c :: after →
      atLineStart reader (before.getLast?.or previous) (c :: (after ++ rest)) = none := by
    intro before c after heq
    rcases List.eq_nil_or_concat before with rfl | ⟨before, d, rfl⟩
    · have hcs : line ++ '\n' :: rest = c :: (after ++ rest) := by
        rw [List.append_cons, heq]
        rfl
      rw [List.getLast?_nil, Option.none_or, atLineStart_eq hprevious, ← hcs, h]
    · have hd : d ∈ line := subset_of_concat_eq heq (by simp)
      rw [List.concat_eq_append, List.getLast?_concat]
      exact atLineStart_eq_none (fun heq => hline (heq ▸ hd)) _
  have hline' := occurrencesFrom_of_none hnone offset
  rw [List.append_assoc, List.getLast?_concat, byteLength_append, ← Nat.add_assoc] at hline'
  exact hline'

/-- A line that the reader takes as a whole. -/
theorem occurrencesFrom_line_some {value : α} (hprevious : AtLineStart previous)
    (hline : '\n' ∉ line) (hne : line ≠ [])
    (h : reader (trimStart (line ++ '\n' :: rest)) = some (value, '\n' :: rest)) (offset : Nat) :
    occurrencesFrom (atLineStart reader) 0 offset previous (line ++ '\n' :: rest) =
      ⟨value, offset + byteLength line, '\n' :: rest⟩ ::
        occurrencesFrom (atLineStart reader) 0 (offset + byteLength line + 1) (some '\n') rest := by
  have hsome : atLineStart reader previous (line ++ '\n' :: rest) = some (value, '\n' :: rest) := by
    rw [atLineStart_eq hprevious, h]
  obtain ⟨front, d, rfl⟩ : ∃ front d, line = front ++ [d] :=
    ⟨line.dropLast, line.getLast hne, (List.dropLast_append_getLast hne).symm⟩
  have hbreak : atLineStart reader (some d) ('\n' :: rest) = none :=
    atLineStart_eq_none (fun heq => hline (heq ▸ by simp)) _
  have hskip : ∀ place, occurrencesFrom (atLineStart reader) 0 place (some d) ('\n' :: rest) =
      occurrencesFrom (atLineStart reader) 0 (place + 1) (some '\n') rest := by
    intro place
    rw [occurrencesFrom, hbreak]
    rfl
  rw [occurrencesFrom_of_some hne hsome, List.getLast?_concat, Option.some_or, hskip]

end Lines

/-! ## Import lines -/

/-- Only the word `import` with a blank behind it starts an import. -/
theorem importLine?_eq_none {cs : List Char}
    (h : String.ofList (cs.takeWhile isWordChar) ≠ "import") : importLine? cs = none := by
  cases hread : importLine? cs with
  | none => rfl
  | some r =>
    obtain ⟨left, hleft, hmore⟩ := Option.bind_eq_some_iff.mp hread
    obtain ⟨behind, hblank, -⟩ := Option.bind_eq_some_iff.mp hmore
    obtain rfl := dropText?_eq_some.mp hleft
    have hhead : ∀ c ∈ left.head?, isWordChar c = false := by
      intro c hc
      cases left with
      | nil => cases hc
      | cons d left =>
        obtain rfl := Option.some.inj hc
        rw [afterBlanks?] at hblank
        split at hblank
        · next hd => exact isWordChar_of_isBlank hd
        · cases hblank
    rw [takeWhile_append_of_head (List.all_eq_true.mp (by decide)) hhead] at h
    exact absurd rfl h

/-- A name behind an import line is no alias, unless it starts with the letters of `as`. -/
theorem givenName?_eq_none {cs : List Char} (h : ¬"as".toList <+: trimStart cs) :
    givenName? cs = none := by
  cases hread : givenName? cs with
  | none => rfl
  | some r =>
    obtain ⟨left, hleft, hmore⟩ := Option.bind_eq_some_iff.mp hread
    obtain ⟨behind, has, -⟩ := Option.bind_eq_some_iff.mp hmore
    rw [(afterBlanks?_eq_some hleft).1] at has
    exact absurd ⟨behind, (dropText?_eq_some.mp has).symm⟩ h

theorem endsLine_break (rest : List Char) : endsLine ('\n' :: rest) = true := by
  simp [endsLine, show isBlank '\n' = true from rfl]

/-- Without an alias a line ends where its name does. -/
theorem importTail?_break {rest : List Char} (h : givenName? ('\n' :: rest) = none) :
    importTail? ('\n' :: rest) = some (none, '\n' :: rest) := by
  simp only [importTail?, h, endsLine_break, if_true]

/-- A dotted name, as packages and imported names are written. -/
def IsDotted (cs : List Char) : Prop :=
  cs ≠ [] ∧ ∀ c ∈ cs, isDottedChar c = true

instance (cs : List Char) : Decidable (IsDotted cs) :=
  decidable_of_iff (cs ≠ [] ∧ cs.all isDottedChar = true)
    (by simp only [IsDotted, List.all_eq_true])

/-- A line that imports a name. -/
def importText (name : List Char) : List Char :=
  "import ".toList ++ name

/-- A line that declares a package. -/
def packageText (name : List Char) : List Char :=
  "package ".toList ++ name

section Dotted

variable {name rest : List Char} (hname : IsDotted name)

include hname

theorem afterBlanks?_dotted : afterBlanks? (' ' :: (name ++ rest)) = some (name ++ rest) := by
  have hsolid : ∀ c ∈ (name ++ rest).head?, isBlank c = false := by
    rw [List.head?_append_of_ne_nil _ hname.1]
    intro c hc
    have hdotted := hname.2 c (List.mem_of_head? hc)
    simp only [isDottedChar, Bool.or_eq_true, beq_iff_eq] at hdotted
    rcases hdotted with hword | rfl
    · exact isBlank_of_isWordChar hword
    · rfl
  rw [afterBlanks?, if_pos (by decide), trimStart_eq_self hsolid]

theorem takeWhile_dotted (rest : List Char) :
    (name ++ '\n' :: rest).takeWhile isDottedChar = name ∧
      (name ++ '\n' :: rest).dropWhile isDottedChar = '\n' :: rest :=
  ⟨takeWhile_append_of_head hname.2 (by simpa using by decide),
    dropWhile_append_of_head hname.2 (by simpa using by decide)⟩

theorem importLine?_importText (hgiven : givenName? ('\n' :: rest) = none) :
    importLine? (importText name ++ '\n' :: rest) =
      some (.single (String.ofList name) none, '\n' :: rest) := by
  have hdrop : dropText? "import".toList (importText name ++ '\n' :: rest) =
      some (' ' :: (name ++ '\n' :: rest)) := by
    unfold importText
    rw [dropText?_eq_some, List.append_assoc]
    rfl
  obtain ⟨htake, hleft⟩ := takeWhile_dotted hname rest
  simp only [importLine?, hdrop, Option.bind_eq_bind, Option.bind_some, afterBlanks?_dotted hname,
    htake, hleft, List.isEmpty_iff, hname.1, if_false]
  split
  · next heq _ => cases heq
  · simp only [importTail?_break hgiven, Option.bind_some]
    rfl

theorem importLine?_append (hrest : ¬"as".toList <+: trimStart rest) :
    importLine? (importText name ++ '\n' :: rest) =
      some (.single (String.ofList name) none, '\n' :: rest) := by
  refine importLine?_importText hname (givenName?_eq_none ?_)
  rwa [trimStart_cons_of_blank (by decide)]

theorem packageLine?_append (rest : List Char) :
    packageLine? (packageText name ++ '\n' :: rest) = some (name, '\n' :: rest) := by
  have hdrop : dropText? "package".toList (packageText name ++ '\n' :: rest) =
      some (' ' :: (name ++ '\n' :: rest)) := by
    unfold packageText
    rw [dropText?_eq_some, List.append_assoc]
    rfl
  obtain ⟨htake, hleft⟩ := takeWhile_dotted hname rest
  simp only [packageLine?, hdrop, Option.bind_eq_bind, Option.bind_some, afterBlanks?_dotted hname,
    htake, hleft, List.isEmpty_iff, hname.1, if_false]
  rfl

end Dotted

/-! ## Whole texts -/

/-- The table that package and imports make. -/
def importTable (package : List Char) (imports : List (List Char)) : Imports :=
  (imports.map fun name => ImportLine.single (String.ofList name) none).foldl Imports.add
    (.forPackage (String.ofList package))

/-- A line that declares no import, whatever else it holds. -/
structure OtherLine (line : List Char) : Prop where
  oneLine : '\n' ∉ line
  solid : isAllBlank line = false
  word : String.ofList ((trimStart line).takeWhile isWordChar) ≠ "import"

theorem not_break_of_isDotted {name : List Char} (hname : IsDotted name) : '\n' ∉ name := by
  intro hmem
  exact absurd (hname.2 _ hmem) (by decide)

theorem not_break_importText {name : List Char} (hname : IsDotted name) :
    '\n' ∉ importText name := by
  unfold importText
  rw [List.mem_append, not_or]
  exact ⟨by decide, not_break_of_isDotted hname⟩

theorem importLines_otherLines {others : List (List Char)} (h : ∀ line ∈ others, OtherLine line)
    {previous : Option Char} (hprevious : AtLineStart previous) (offset : Nat) :
    (occurrencesFrom (atLineStart importLine?) 0 offset previous (unlines others)).map (·.value) =
      [] := by
  induction others generalizing previous offset with
  | nil => simp [occurrencesFrom]
  | cons line others ih =>
    obtain ⟨hline, hothers⟩ := List.forall_mem_cons.mp h
    have hnone : importLine? (trimStart (line ++ '\n' :: unlines others)) = none := by
      refine importLine?_eq_none ?_
      rw [trimStart_append_of_solid hline.solid, takeWhile_append_cons (by decide)]
      exact hline.word
    rw [unlines_cons, occurrencesFrom_line_none hprevious hline.oneLine hnone]
    exact ih hothers (by simp [AtLineStart]) _

/-- An import line starts with its word. -/
theorem trimStart_importText (name rest : List Char) :
    trimStart (importText name ++ rest) = importText name ++ rest := by
  refine trimStart_eq_self fun c hc => ?_
  obtain rfl : 'i' = c := Option.some.inj hc
  decide

/-- A package line starts with its word. -/
theorem trimStart_packageText (name rest : List Char) :
    trimStart (packageText name ++ rest) = packageText name ++ rest := by
  refine trimStart_eq_self fun c hc => ?_
  obtain rfl : 'p' = c := Option.some.inj hc
  decide

theorem takeWhile_packageText (name rest : List Char) :
    (packageText name ++ rest).takeWhile isWordChar = "package".toList :=
  (takeWhile_append_cons (c := ' ') (by decide) "package".toList (name ++ rest)).trans (by decide)

theorem importLines_imports {imports others : List (List Char)}
    (himports : ∀ name ∈ imports, IsDotted name) (h : ∀ line ∈ others, OtherLine line)
    (hfirst : ¬"as".toList <+: trimStart (unlines others)) (offset : Nat) :
    (occurrencesFrom (atLineStart importLine?) 0 offset (some '\n')
        (unlines (imports.map importText ++ others))).map (·.value) =
      imports.map fun name => ImportLine.single (String.ofList name) none := by
  induction imports generalizing offset with
  | nil => exact importLines_otherLines h (by simp [AtLineStart]) offset
  | cons name imports ih =>
    obtain ⟨hname, himports⟩ := List.forall_mem_cons.mp himports
    have hrest : ¬"as".toList <+: trimStart (unlines (imports.map importText ++ others)) := by
      cases imports with
      | nil => exact hfirst
      | cons next imports =>
        rw [List.map_cons, List.cons_append, unlines_cons, trimStart_importText]
        rintro ⟨more, hmore⟩
        cases hmore
    have hsome := importLine?_append hname hrest
    rw [← trimStart_importText] at hsome
    rw [List.map_cons, List.cons_append, unlines_cons, occurrencesFrom_line_some
      (by simp [AtLineStart]) (not_break_importText hname) (List.cons_ne_nil _ _) hsome,
      List.map_cons, ih himports, List.map_cons]

theorem ofText_unlines {package : List Char} {imports others : List (List Char)}
    (hpackage : IsDotted package) (himports : ∀ name ∈ imports, IsDotted name)
    (h : ∀ line ∈ others, OtherLine line)
    (hfirst : ¬"as".toList <+: trimStart (unlines others)) :
    Imports.ofText (unlines (packageText package :: (imports.map importText ++ others))) =
      importTable package imports := by
  have hbreak : '\n' ∉ packageText package := by
    unfold packageText
    rw [List.mem_append, not_or]
    exact ⟨by decide, not_break_of_isDotted hpackage⟩
  have hdeclared : declaredPackage (unlines (packageText package ::
      (imports.map importText ++ others))) = String.ofList package := by
    have hsome := packageLine?_append hpackage (unlines (imports.map importText ++ others))
    rw [← trimStart_packageText] at hsome
    rw [declaredPackage, unlines_cons, occurrences,
      occurrencesFrom_line_some (by simp [AtLineStart]) hbreak (List.cons_ne_nil _ _) hsome]
  have hlines : importLines (unlines (packageText package ::
      (imports.map importText ++ others))) =
        imports.map fun name => ImportLine.single (String.ofList name) none := by
    have hnone : importLine? (trimStart (packageText package ++
        '\n' :: unlines (imports.map importText ++ others))) = none := by
      rw [trimStart_packageText]
      exact importLine?_eq_none (by rw [takeWhile_packageText]; decide)
    rw [importLines, unlines_cons, occurrences, occurrencesFrom_line_none (by simp [AtLineStart])
      hbreak hnone]
    exact importLines_imports himports h hfirst _
  rw [Imports.ofText, hdeclared, hlines, importTable]

end ComponentWiring.Source

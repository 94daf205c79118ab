import ComponentWiring.Proofs.Source.DefaultAgreement
import ComponentWiring.Proofs.Source.Expressions
import ComponentWiring.Proofs.Source.TypeReading

/-!
Constructor parameters that are printed line by line and read back. A `PrintedParameter` is a
parameter with a type that the imports can resolve and possibly a default; `readParameters_lines`
says that a printed list is read into its parameters, and `defaultsOf_lines` that the defaults are
found as they were printed.

Printed lines are put together from parts that have the same four properties (`LinePart`), and the
properties are kept where parts meet at a blank or a punctuation mark.
-/

namespace ComponentWiring.Source

open Text TypeExpr

/-! ## Parts of lines -/

/-- A part of a line of source text: on one line, balanced, without comments, and free of the words
that introduce a class. -/
structure LinePart (cs : List Char) : Prop where
  oneLine : '\n' ∉ cs
  balanced : IsBalanced true cs
  silent : Silent cs
  wordFree : FreeOf classWords cs

/-- A character at which two parts of a line can meet. -/
def isJoint (c : Char) : Bool :=
  isPlain c && !isWordChar c && !"\n/*".toList.contains c

namespace LinePart

variable {as cs : List Char} {c : Char}

theorem nil : LinePart [] :=
  ⟨by simp, .nil, .nil, by decide⟩

theorem append_cons (has : LinePart as) (hc : isJoint c = true) (hcs : LinePart cs) :
    LinePart (as ++ c :: cs) := by
  simp only [isJoint, Bool.and_eq_true, Bool.not_eq_true', List.contains_eq_mem,
    decide_eq_false_iff_not, String.reduceToList, List.mem_cons, List.not_mem_nil, or_false,
    not_or] at hc
  obtain ⟨⟨hplain, hword⟩, hbreak, hslash, hstar⟩ := hc
  have hquote : isQuote c = false := by
    simp only [isPlain, Bool.not_eq_true', Bool.or_eq_false_iff] at hplain
    exact hplain.1.1.1
  refine ⟨?_, ?_, ?_, (freeOf_append_cons hword).mpr ⟨has.wordFree, hcs.wordFree⟩⟩
  · rw [List.mem_append, List.mem_cons, not_or, not_or]
    exact ⟨has.oneLine, Ne.symm hbreak, hcs.oneLine⟩
  · have hmark : IsBalanced true [c] := .of_isPlain (by simp [hplain])
    exact has.balanced.append (hmark.append hcs.balanced)
  · exact has.silent.append (hcs.silent.cons hslash hquote) (by simp [hslash, hstar])

theorem cons (hc : isJoint c = true) (hcs : LinePart cs) : LinePart (c :: cs) :=
  nil.append_cons hc hcs

theorem of_isName (h : IsName cs) (hfree : FreeOf classWords cs) : LinePart cs := by
  have hplain : cs.all isPlain = true :=
    List.all_eq_true.mpr fun c hc => isPlain_of_class (by decide) (h.2 c hc)
  refine ⟨?_, .of_isPlain hplain, .of_class (by decide) h.2, hfree⟩
  exact fun hmem => absurd (h.2 _ hmem) (by decide)

theorem of_readable {imports : Imports} {locals : List String} {type : TypeExpr}
    (h : Readable imports locals type) (hfree : FreeOf classWords type.render.toList) :
    LinePart type.render.toList :=
  ⟨h.spelled.not_mem (by decide), h.spelled.balanced,
    .of_class (by decide) h.spelled.isTypeChar_of_mem, hfree⟩

theorem of_plainExpression (h : PlainExpression cs) : LinePart cs :=
  ⟨h.oneLine, h.balanced_true, h.silent, h.wordFree⟩

/-- An indented line. -/
theorem indented (n : Nat) (h : LinePart cs) : LinePart (List.replicate n ' ' ++ cs) := by
  induction n with
  | zero => exact h
  | succ n ih => exact cons (by decide) ih

end LinePart

/-! ## Printed parameters -/

/-- A constructor parameter that can be printed and read back. Its name is neither `import`, which
would start an import line, nor a word that introduces a class. -/
structure PrintedParameter (imports : Imports) where
  /-- Whether the parameter is marked as injected. -/
  marked : Bool
  name : List Char
  type : TypeExpr
  default? : Option (List Char)
  name_isName : IsName name
  name_free : FreeOf ("import" :: classWords) name
  type_readable : Readable imports [] type
  type_free : FreeOf classWords type.render.toList
  default_plain : ∀ d ∈ default?, PlainExpression d

namespace PrintedParameter

variable {imports : Imports}

/-- The annotations as they are written. -/
def annotationTexts (p : PrintedParameter imports) : List (List Char) :=
  if p.marked then ["@GenDslInject".toList] else []

/-- The marker in front of the parameter. -/
def marking (p : PrintedParameter imports) : List Char :=
  if p.marked then "@GenDslInject ".toList else []

/-- The parameter as it is written. -/
def text (p : PrintedParameter imports) : List Char :=
  p.marking ++ parameterLine p.name p.type.render.toList p.default?

/-- What stands behind the colon and the blank: the type, and the default if there is one. -/
def assigned (p : PrintedParameter imports) : List Char :=
  match p.default? with
  | none => p.type.render.toList
  | some d => p.type.render.toList ++ ' ' :: '=' :: ' ' :: d

theorem parameterLine_eq (p : PrintedParameter imports) :
    parameterLine p.name p.type.render.toList p.default? = p.name ++ ':' :: ' ' :: p.assigned := by
  unfold assigned
  cases p.default? <;> simp [parameterLine]

theorem assigned_linePart (p : PrintedParameter imports) : LinePart p.assigned := by
  have htype := LinePart.of_readable p.type_readable p.type_free
  unfold assigned
  cases h : p.default? with
  | none => exact htype
  | some d =>
    have hdefault := LinePart.of_plainExpression (p.default_plain d h)
    exact htype.append_cons (by decide) (.cons (by decide) (.cons (by decide) hdefault))

theorem text_linePart (p : PrintedParameter imports) : LinePart p.text := by
  have hname := LinePart.of_isName p.name_isName (p.name_free.mono (List.subset_cons_self _ _))
  have htyped := hname.append_cons (c := ':') (by decide)
    (.cons (c := ' ') (by decide) p.assigned_linePart)
  unfold text marking
  rw [parameterLine_eq]
  split_ifs
  · have hmarker : LinePart "GenDslInject".toList := .of_isName (by decide) (by decide)
    exact .cons (c := '@') (by decide) (hmarker.append_cons (c := ' ') (by decide) htyped)
  · exact htyped

theorem assigned_trimmed (p : PrintedParameter imports) : Trimmed p.assigned := by
  have htype := p.type_readable.spelled.trimmed
  unfold assigned
  cases h : p.default? with
  | none => exact htype
  | some d =>
    have hshape : p.type.render.toList ++ ' ' :: '=' :: ' ' :: d =
        (p.type.render.toList ++ " = ".toList) ++ d := by simp
    simp only [hshape]
    exact (p.default_plain d h).trimmed.append_left (by simp [htype.ne_nil]) (htype.head_append _)

theorem text_trimmed (p : PrintedParameter imports) : Trimmed p.text := by
  have hshape : p.text = (p.marking ++ (p.name ++ ": ".toList)) ++ p.assigned := by
    rw [text, parameterLine_eq]
    simp
  rw [hshape]
  refine p.assigned_trimmed.append_left (by simp [p.name_isName.ne_nil]) ?_
  unfold marking
  split_ifs
  · intro c hc
    obtain rfl : '@' = c := Option.some.inj hc
    rfl
  · exact p.name_isName.trimmed.head_append _

/-- A parameter does not start like an import line. -/
theorem word_ne_import (p : PrintedParameter imports) (rest : List Char) :
    String.ofList ((p.text ++ rest).takeWhile isWordChar) ≠ "import" := by
  unfold text marking
  rw [parameterLine_eq]
  split_ifs
  · show String.ofList (List.takeWhile isWordChar ('@' :: _)) ≠ "import"
    rw [List.takeWhile_cons_of_neg (by decide)]
    decide
  · have hname : p.name ∈ wordRuns p.name := by
      have hmem := takeWhile_mem_wordRuns p.name
      rwa [List.takeWhile_eq_self_iff.mpr p.name_isName.2] at hmem
    rw [List.nil_append, List.append_assoc,
      takeWhile_append_of_head p.name_isName.2 (by simp [isWordChar_colon])]
    exact fun heq => p.name_free _ hname (heq ▸ List.mem_cons_self)

/-! ## Reading a printed parameter -/

theorem annotations_text (p : PrintedParameter imports) :
    annotations p.text =
      (p.annotationTexts, parameterLine p.name p.type.render.toList p.default?) := by
  have hat := p.name_isName.not_at_append (':' :: ' ' :: p.assigned)
  unfold text marking annotationTexts
  rw [parameterLine_eq]
  split_ifs with hmarked
  · have h := annotation?_marker (show "GenDslInject".toList ≠ [] by decide)
      (List.all_eq_true.mp (by decide)) (show isBlank ' ' = true from rfl)
      (p.name ++ ':' :: ' ' :: p.assigned)
    rw [p.name_isName.trimmed.trimStart_append] at h
    exact readAll_eq_singleton (by simp) h (annotationWith?_of_head hat)
  · rw [List.nil_append, annotations_of_head hat]

/-- What a printed parameter is read into. -/
theorem parameterText?_text (p : PrintedParameter imports) :
    parameterText? p.text =
      some ⟨p.annotationTexts, [], false, String.ofList p.name, p.assigned⟩ := by
  have hname := nameAndColon?_append p.name_isName (' ' :: p.assigned)
  have hrest : trimStart (' ' :: p.assigned) = p.assigned := by
    rw [trimStart_cons_of_blank rfl, trimStart_eq_self p.assigned_trimmed.head]
  have htyped : typedName? (p.name ++ ':' :: ' ' :: p.assigned) = some (p.name, p.assigned) :=
    typedName?_eq_some.mpr ⟨_, hname, hrest.symm, p.assigned_trimmed.ne_nil⟩
  have hcolon : ∀ cs, typedName? (':' :: cs) = none := by
    intro cs
    rw [typedName?, nameAndColon?_colon]
  have hread := withModifiers_of_name (show "" ∉ parameterModifiers by decide)
    (optionalPropertyWord_colon hcolon) hname (optionalPropertyWord_of_name hcolon hname htyped)
    (p.name ++ ':' :: ' ' :: p.assigned).length
  rw [parameterText?, annotations_text, parameterLine_eq]
  simp only [modifiersThen, hread]
  rfl

/-- The text that a printed parameter is read into. -/
def parameterText (p : PrintedParameter imports) : ParameterText :=
  ⟨p.annotationTexts, [], false, String.ofList p.name, p.assigned⟩

theorem usableParameter_text (p : PrintedParameter imports) :
    usableParameter p.text = .ok p.parameterText :=
  usableParameter_eq_ok.mpr ⟨p.parameterText?_text, List.not_mem_nil⟩

theorem splitFirst_assigned (p : PrintedParameter imports) :
    splitFirst '=' p.assigned =
      p.default?.map fun d => (p.type.render.toList ++ [' '], ' ' :: d) := by
  have hnot : '=' ∉ p.type.render.toList := p.type_readable.spelled.not_mem (by decide)
  unfold assigned
  cases p.default? with
  | none => exact splitFirst_eq_none hnot
  | some d =>
    simp only [Option.map_some]
    rw [List.append_cons]
    exact splitFirst_append (by simp [hnot]) _

theorem default?_parameterText (p : PrintedParameter imports) :
    p.parameterText.default? = p.default?.map (' ' :: ·) := by
  rw [ParameterText.default?, parameterText, splitFirst_assigned, Option.map_map]
  rfl

theorem hasDefault_parameterText (p : PrintedParameter imports) :
    p.parameterText.hasDefault = p.default?.isSome := by
  rw [ParameterText.hasDefault, parameterText, splitFirst_assigned]
  cases h : p.default? with
  | none => rfl
  | some d =>
    obtain ⟨c, d, rfl⟩ := List.exists_cons_of_ne_nil (p.default_plain d h).trimmed.ne_nil
    have hsolid := (p.default_plain _ h).trimmed.head c rfl
    simp [isAllBlank, hsolid]

/-- The written type has the blank in front of the equals sign behind it. -/
theorem typeText_parameterText (p : PrintedParameter imports) :
    p.parameterText.typeText =
      p.type.render.toList ++ (if p.default?.isSome then [' '] else []) := by
  have hnot : ∀ c ∈ p.type.render.toList, (c != '=') = true := by
    intro c hc
    rw [bne_iff_ne]
    rintro rfl
    exact p.type_readable.spelled.not_mem (by decide) hc
  unfold ParameterText.typeText parameterText assigned beforeFirst
  cases p.default? with
  | none => simpa using hnot
  | some d =>
    have hblank : ∀ c ∈ p.type.render.toList ++ [' '], (c != '=') = true :=
      List.forall_mem_append.mpr ⟨hnot, by simp⟩
    simp only [Option.isSome_some, if_true]
    rw [List.append_cons]
    exact takeWhile_append_of_head hblank (by simp)

theorem readType_typeText (p : PrintedParameter imports) :
    readType imports [] p.parameterText.typeText = p.type := by
  have htrim : trim p.parameterText.typeText = trim p.type.render.toList := by
    rw [typeText_parameterText, p.type_readable.spelled.trimmed.trim_eq]
    refine p.type_readable.spelled.trimmed.trim_padded (show isAllBlank [] = true from rfl) ?_
    cases p.default? <;> rfl
  rw [readType_eq, htrim, ← readType_eq, readType_render p.type_readable]

theorem markers_parameterText (p : PrintedParameter imports) :
    p.parameterText.markers = { inject := p.marked } := by
  have hmarkers : ∀ marked : Bool, (⟨carriesMarker (if marked then ["@GenDslInject".toList] else [])
      injectMarker, carriesMarker (if marked then ["@GenDslInject".toList] else [])
      exposeMarker⟩ : Markers) = { inject := marked } := by decide +kernel
  exact hmarkers p.marked

/-- What the parameter contributes to the defaults. -/
theorem defaultPair?_text (p : PrintedParameter imports) :
    defaultPair? p.text = p.default?.map fun d => (String.ofList p.name, String.ofList d) := by
  cases h : p.default? with
  | none =>
    cases hentry : defaultPair? p.text with
    | none => rfl
    | some e =>
      obtain ⟨-, hhas, -⟩ := defaultPair?_eq_some p.usableParameter_text hentry
      rw [hasDefault_parameterText, h] at hhas
      cases hhas
  | some d =>
    have hplain := p.default_plain d h
    have hd : p.parameterText.default? = some (' ' :: d) := by
      rw [default?_parameterText, h, Option.map_some]
    have hbare : bareExpression (' ' :: d) = d := by
      rw [← bareExpression_trimStart, trimStart_cons_of_blank rfl,
        trimStart_eq_self hplain.trimmed.head, hplain.bareExpression_eq]
    have htype : p.parameterText.typeText ≠ [] := by
      simp [typeText_parameterText, p.type_readable.spelled.trimmed.ne_nil]
    have hentry := defaultPair?_of_default? p.usableParameter_text hd
      (by rw [hbare]; exact hplain.trimmed.ne_nil) htype
    rw [hentry, hbare]
    rfl

/-- The parameter that is read, in a class with the given convention. -/
def parameter (p : PrintedParameter imports) (convention : Convention) : Parameter :=
  { name := String.ofList p.name
    type := p.type
    role := if p.marked then .injected else convention.unmarked
    hasDefault := p.default?.isSome }

end PrintedParameter

/-! ## Lists line by line -/

/-- Texts one a line, with commas between them. -/
def commaLines (indent : Nat) : List (List Char) → List (List Char)
  | [] => []
  | [text] => [List.replicate indent ' ' ++ text]
  | text :: next :: texts =>
    (List.replicate indent ' ' ++ text ++ [',']) :: commaLines indent (next :: texts)

theorem isAllBlank_replicate (n : Nat) : isAllBlank (List.replicate n ' ') = true := by
  simp [isAllBlank, show isBlank ' ' = true from rfl]

theorem topLevelParts_commaLines (indent : Nat) {texts : List (List Char)}
    (hbalanced : ∀ text ∈ texts, IsBalanced true text) (htrimmed : ∀ text ∈ texts, Trimmed text) :
    topLevelParts (unlines (commaLines indent texts)) = texts := by
  induction texts with
  | nil => rfl
  | cons text texts ih =>
    obtain ⟨hb, hbs⟩ := List.forall_mem_cons.mp hbalanced
    obtain ⟨ht, hts⟩ := List.forall_mem_cons.mp htrimmed
    have hindent : IsBalanced true (List.replicate indent ' ') :=
      .of_isPlain (by simp [show isPlain ' ' = true from rfl])
    have htrim {after : List Char} (hafter : isAllBlank after = true) :=
      ht.trim_padded (isAllBlank_replicate indent) hafter
    cases texts with
    | nil =>
      have hbreak : IsBalanced true ['\n'] := .of_isPlain (by decide)
      have hkeeps := (((hindent.append hb).append hbreak).run_true 0).1
      rw [commaLines, unlines_cons, unlines_nil]
      exact topLevelParts_of_keeps hkeeps (htrim rfl) ht.ne_nil
    | cons next texts =>
      obtain ⟨hkeeps, dash, hrun⟩ := (hindent.append hb).run_true 0
      have hfirst := htrim (show isAllBlank [] = true from rfl)
      rw [List.append_nil] at hfirst
      rw [commaLines, unlines_cons, List.append_assoc, List.singleton_append,
        topLevelParts_append_comma hkeeps hrun, topLevelParts_cons_of_blank rfl, ih hbs hts,
        hfirst]

/-- Balanced texts are the parts of their list, since none leaves an angle bracket open. -/
theorem parameterParts_commaLines (indent : Nat) {texts : List (List Char)}
    (hbalanced : ∀ text ∈ texts, IsBalanced true text) (htrimmed : ∀ text ∈ texts, Trimmed text) :
    parameterParts ('\n' :: unlines (commaLines indent texts)) = texts := by
  have hclosed : ∀ text ∈ texts, refinedParts text = [text] := by
    intro text htext
    obtain ⟨-, dash, hrun⟩ := (hbalanced text htext).run_true 0
    exact refinedParts_of_closed (congrArg Nesting.angles hrun)
  rw [parameterParts_eq, topLevelParts_cons_of_blank rfl,
    topLevelParts_commaLines indent hbalanced htrimmed, List.flatMap_congr hclosed,
    List.flatMap_singleton']

/-- A line holds one text, possibly with a comma behind it. -/
theorem exists_of_mem_commaLines {indent : Nat} {texts : List (List Char)} {line : List Char}
    (h : line ∈ commaLines indent texts) : ∃ text ∈ texts, ∃ comma, (comma = [] ∨ comma = [',']) ∧
      line = List.replicate indent ' ' ++ text ++ comma := by
  induction texts with
  | nil => cases h
  | cons text texts ih =>
    cases texts with
    | nil =>
      rw [commaLines, List.mem_singleton] at h
      exact ⟨text, List.mem_cons_self, [], .inl rfl, by rw [h, List.append_nil]⟩
    | cons next texts =>
      rw [commaLines, List.mem_cons] at h
      rcases h with rfl | h
      · exact ⟨text, List.mem_cons_self, [','], .inr rfl, rfl⟩
      · obtain ⟨text', htext, hline⟩ := ih h
        exact ⟨text', List.mem_cons_of_mem _ htext, hline⟩

theorem Silent.indented {cs : List Char} (n : Nat) (h : Silent cs) :
    Silent (List.replicate n ' ' ++ cs) := by
  induction n with
  | zero => exact h
  | succ n ih => exact ih.cons (by decide) rfl

theorem silent_of_mem_commaLines {indent : Nat} {texts : List (List Char)} {line : List Char}
    (hsilent : ∀ text ∈ texts, Silent text) (h : line ∈ commaLines indent texts) :
    Silent line := by
  obtain ⟨text, htext, comma, hcomma, rfl⟩ := exists_of_mem_commaLines h
  refine ((hsilent text htext).indented indent).append ?_ ?_
  · rcases hcomma with rfl | rfl
    · exact .nil
    · exact .of_class (p := (· == ',')) (by decide) (List.forall_mem_singleton.mpr rfl)
  · rcases hcomma with rfl | rfl <;> simp

theorem passesBy_of_mem_commaLines {indent : Nat} {texts : List (List Char)} {line : List Char}
    (hbalanced : ∀ text ∈ texts, IsBalanced true text) (h : line ∈ commaLines indent texts) :
    PassesBy line := by
  obtain ⟨text, htext, comma, hcomma, rfl⟩ := exists_of_mem_commaLines h
  have hindent : IsBalanced true (List.replicate indent ' ') :=
    .of_isPlain (by simp [show isPlain ' ' = true from rfl])
  refine (hindent.append (hbalanced text htext)).passesBy.append ?_
  rcases hcomma with rfl | rfl
  · exact .nil
  · exact .singleton (by decide)

/-! ## Lists of parameters -/

section Lists

variable {imports : Imports}

/-- Parameters one a line, with commas between them. -/
def parameterLines (indent : Nat) : List (PrintedParameter imports) → List (List Char)
  | [] => []
  | [p] => [List.replicate indent ' ' ++ p.text]
  | p :: q :: ps =>
    (List.replicate indent ' ' ++ p.text ++ [',']) :: parameterLines indent (q :: ps)

theorem parameterLines_eq (indent : Nat) (ps : List (PrintedParameter imports)) :
    parameterLines indent ps = commaLines indent (ps.map (·.text)) := by
  induction ps with
  | nil => rfl
  | cons p ps ih =>
    cases ps with
    | nil => rfl
    | cons q ps => exact congrArg (_ :: ·) ih

/-- Printed parameters are the parts of their list. -/
theorem parameterParts_lines (indent : Nat) (ps : List (PrintedParameter imports)) :
    parameterParts ('\n' :: unlines (parameterLines indent ps)) = ps.map (·.text) := by
  rw [parameterLines_eq]
  exact parameterParts_commaLines indent
    (List.forall_mem_map.mpr fun p _ => p.text_linePart.balanced)
    (List.forall_mem_map.mpr fun p _ => p.text_trimmed)

theorem passesBy_unlines {lines : List (List Char)} (h : ∀ line ∈ lines, PassesBy line) :
    PassesBy (unlines lines) := by
  induction lines with
  | nil => exact .nil
  | cons line lines ih =>
    obtain ⟨hline, hlines⟩ := List.forall_mem_cons.mp h
    rw [unlines_cons]
    have hbreak : PassesBy ['\n'] := .singleton (by decide)
    exact hline.append (hbreak.append (ih hlines))

/-- A line holds one parameter, possibly with a comma behind it. -/
theorem exists_of_mem_parameterLines {indent : Nat} {ps : List (PrintedParameter imports)}
    {line : List Char} (h : line ∈ parameterLines indent ps) :
    ∃ p ∈ ps, ∃ comma, (comma = [] ∨ comma = [',']) ∧
      line = List.replicate indent ' ' ++ p.text ++ comma := by
  rw [parameterLines_eq] at h
  obtain ⟨text, htext, hline⟩ := exists_of_mem_commaLines h
  obtain ⟨p, hp, rfl⟩ := List.mem_map.mp htext
  exact ⟨p, hp, hline⟩

section Lines

variable {indent : Nat} {ps : List (PrintedParameter imports)} {line : List Char}
  (h : line ∈ parameterLines indent ps)

include h

theorem silent_of_mem_parameterLines : Silent line := by
  rw [parameterLines_eq] at h
  exact silent_of_mem_commaLines (List.forall_mem_map.mpr fun p _ => p.text_linePart.silent) h

theorem passesBy_of_mem_parameterLines : PassesBy line := by
  rw [parameterLines_eq] at h
  exact passesBy_of_mem_commaLines (List.forall_mem_map.mpr fun p _ => p.text_linePart.balanced) h

theorem wordFree_of_mem_parameterLines : FreeOf classWords line := by
  obtain ⟨p, -, comma, hcomma, rfl⟩ := exists_of_mem_parameterLines h
  have hline := (p.text_linePart.indented indent).wordFree
  rcases hcomma with rfl | rfl
  · rwa [List.append_nil]
  · exact (freeOf_append_cons (by decide)).mpr ⟨hline, by decide⟩

/-- No parameter is taken for an import. -/
theorem otherLine_of_mem_parameterLines : OtherLine line := by
  obtain ⟨p, -, comma, hcomma, rfl⟩ := exists_of_mem_parameterLines h
  have hline := (p.text_linePart.indented indent).oneLine
  have htrim : trimStart (List.replicate indent ' ' ++ p.text ++ comma) = p.text ++ comma := by
    rw [List.append_assoc, trimStart_append_of_blank (isAllBlank_replicate indent),
      p.text_trimmed.trimStart_append]
  refine ⟨?_, ?_, ?_⟩
  · rw [List.mem_append, not_or]
    refine ⟨hline, ?_⟩
    rcases hcomma with rfl | rfl <;> simp
  · rw [← Bool.not_eq_true, ← trimStart_eq_nil_iff, htrim]
    simp [p.text_trimmed.ne_nil]
  · rw [htrim]
    exact p.word_ne_import comma

end Lines

/-- The convention that printed parameters show. -/
def conventionOf (ps : List (PrintedParameter imports)) (fallback : Convention) : Convention :=
  if ps.any (·.marked) then .markToInject else fallback

/-- A printed list is read into its parameters, in order. -/
theorem readParameters_lines (indent : Nat) (ps : List (PrintedParameter imports))
    (fallback : Convention) :
    readParameters ('\n' :: unlines (parameterLines indent ps)) imports fallback =
      .ok (ps.map (·.parameter (conventionOf ps fallback))) := by
  have htexts : (ps.map (·.text)).mapM usableParameter = .ok (ps.map (·.parameterText)) := by
    rw [mapM_eq_ok_iff, List.forall₂_map_left_iff, List.forall₂_map_right_iff]
    exact List.forall₂_same.mpr fun p _ => p.usableParameter_text
  have hconvention : Convention.infer ((ps.map (·.parameterText)).map ParameterText.markers)
      fallback = conventionOf ps fallback := by
    simp [Convention.infer, conventionOf, Function.comp_def, PrintedParameter.markers_parameterText]
  have hparameter : ∀ p ∈ ps,
      ({ name := p.parameterText.name
         type := readType imports [] p.parameterText.typeText
         role := Role.classify p.parameterText.markers (conventionOf ps fallback)
         hasDefault := p.parameterText.hasDefault } : Parameter) =
        p.parameter (conventionOf ps fallback) := by
    intro p _
    rw [p.readType_typeText, p.markers_parameterText, p.hasDefault_parameterText]
    rfl
  rw [readParameters, parameterParts_lines, htexts]
  simp only [bind, Except.bind, pure, Except.pure, hconvention]
  rw [List.map_map]
  exact congrArg Except.ok (List.map_congr_left hparameter)

/-- The parts of a list are located one by one. -/
theorem map_fst_locateParts (offset : Nat) (cs : List Char) (parts : List (List Char)) :
    (locateParts offset cs parts).map Prod.fst = parts := by
  induction parts generalizing offset cs with
  | nil => rfl
  | cons part parts ih =>
    rw [locateParts]
    split
    · rw [List.map_cons, ih]
    · rw [List.map_cons, ih]

theorem mem_parameterParts_of_mem_parametersWithOffsets {list part : List Char} {offset : Nat}
    (h : (part, offset) ∈ parametersWithOffsets list) : part ∈ parameterParts list := by
  have hfst := List.mem_map_of_mem (f := Prod.fst) h
  rwa [parametersWithOffsets, map_fst_locateParts] at hfst

/-- The defaults of a printed list are those that were printed. -/
theorem defaultsOf_lines (indent : Nat) (ps : List (PrintedParameter imports)) :
    defaultsOf ('\n' :: unlines (parameterLines indent ps)) =
      Keyed.ofList (ps.filterMap fun p =>
        p.default?.map fun d => (String.ofList p.name, String.ofList d)) := by
  rw [defaultsOf_eq_ofList, parameterParts_lines, List.filterMap_map]
  congr 1
  exact List.filterMap_congr fun p _ => p.defaultPair?_text

end Lists

end ComponentWiring.Source

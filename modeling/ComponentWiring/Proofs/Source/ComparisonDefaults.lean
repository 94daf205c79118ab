import ComponentWiring.Proofs.Source.Annotations
import ComponentWiring.Proofs.Source.ListCutting
import ComponentWiring.Proofs.Source.Modifiers

/-!
Comparisons in default values. The list reader takes every `<` and `>` outside literals for an angle
bracket, so that a comparison can keep the parameters behind it together with its own. Cutting such
a part again finds the parameters, unless a later `>` closed what the comparison had opened: then
there is nothing to cut again, and the parameters in between are lost.

`parameterParts_listText_iff` says exactly when a list of parameters is cut into its parameters, for
lists of any length and with any comparisons in the defaults. The proof follows the list from a
parameter on. If the parameter leaves no angle bracket open, it is cut off (`topLevelParts_closed`).
Otherwise either some later parameter closes what is open, and the two end up in one part, or none
does (`topLevelParts_cases`), and then the first cut decides (`recut?_of_cutsBehind` and
`recut?_of_not_cutsBehind`).
-/

namespace ComponentWiring.Source

open Text

/-! ## Lists of parameters -/

/-- A parameter with a type and possibly a default. Angle brackets are brackets in the type and
comparisons in the default. -/
structure ListedParameter where
  name : List Char
  type : List Char
  default? : Option (List Char)
  name_isName : IsName name
  type_balanced : IsBalanced true type
  default_balanced : ∀ d ∈ default?, IsBalanced false d
  /-- The parameter does not end in a blank, which would be no part of it. -/
  last_solid : ∀ c ∈ (parameterLine name type default?).getLast?, isBlank c = false

namespace ListedParameter

/-- The text of the parameter. -/
def text (p : ListedParameter) : List Char :=
  parameterLine p.name p.type p.default?

/-- The name, the colon and the type. -/
def typedName (p : ListedParameter) : List Char :=
  p.name ++ ": ".toList ++ p.type

/-- The default with its equals sign. -/
def assignment (p : ListedParameter) : List Char :=
  match p.default? with
  | none => []
  | some d => " = ".toList ++ d

theorem text_eq (p : ListedParameter) : p.text = p.typedName ++ p.assignment := by
  unfold text typedName assignment
  cases p.default? with
  | none => simp [parameterLine]
  | some d => simp [parameterLine]

theorem typedName_balanced (p : ListedParameter) : IsBalanced true p.typedName := by
  refine .append (.append (.of_isPlain ?_) (.of_isPlain (by decide))) p.type_balanced
  exact List.all_eq_true.mpr fun c hc => isPlain_of_class (by decide) (p.name_isName.2 c hc)

theorem trimmed (p : ListedParameter) : Trimmed p.text := by
  have hname : ∃ rest, p.text = p.name ++ rest := by
    rw [text_eq, typedName, List.append_assoc, List.append_assoc]
    exact ⟨_, rfl⟩
  obtain ⟨rest, hrest⟩ := hname
  refine ⟨?_, ?_, p.last_solid⟩
  · simp [hrest, p.name_isName.ne_nil]
  · rw [hrest]
    exact p.name_isName.trimmed.head_append rest

/-- A parameter keeps together, whatever angle brackets are open in front of it. -/
theorem run_text (p : ListedParameter) (around : Nat) :
    ({ angles := around } : Nesting).Keeps true p.text ∧
      ∃ left dash, Nesting.run true { angles := around } p.text =
        { angles := left, afterDash := dash } := by
  obtain ⟨hkeeps, dash, hrun⟩ := p.typedName_balanced.run_true around
  rw [text_eq, Nesting.keeps_append, Nesting.run_append, hrun]
  unfold assignment
  cases h : p.default? with
  | none => exact ⟨⟨hkeeps, trivial⟩, around, dash, rfl⟩
  | some d =>
    obtain ⟨hdefault, left, dash', hrun'⟩ :=
      (p.default_balanced d h).run_false true around
    -- Behind the equals sign comes a blank, so that a dash before it is forgotten.
    exact ⟨⟨hkeeps, rfl, rfl, rfl, hdefault⟩, left, dash', hrun'⟩

/-- Where angle brackets are not counted, a parameter leaves nothing open. -/
theorem run_blind (p : ListedParameter) :
    ∃ dash, Nesting.run false {} p.text = { afterDash := dash } := by
  obtain ⟨dash, hrun⟩ := p.typedName_balanced.run_blind
  rw [text_eq, Nesting.run_append, hrun]
  unfold assignment
  cases h : p.default? with
  | none => exact ⟨dash, rfl⟩
  | some d => exact (p.default_balanced d h).run_blind

theorem startsParameter_text (p : ListedParameter) (rest : List Char) :
    startsParameter (' ' :: (p.text ++ rest)) = true := by
  have htext : ∃ more, p.text ++ rest = p.name ++ ':' :: more :=
    ⟨' ' :: (p.type ++ (p.assignment ++ rest)), by simp [text_eq, typedName]⟩
  obtain ⟨more, hmore⟩ := htext
  have htrim : trimStart (' ' :: (p.name ++ ':' :: more)) = p.name ++ ':' :: more := by
    rw [trimStart_cons_of_blank rfl, p.name_isName.trimmed.trimStart_append]
  have hat := p.name_isName.not_at_append (':' :: more)
  have hname := nameAndColon?_append p.name_isName more
  rw [startsParameter, hmore, htrim, annotations_of_head hat, modifiersThen,
    withModifiers_of_name (by decide) (optionalPropertyWord_colon nameAndColon?_colon) hname
      (optionalPropertyWord_of_name nameAndColon?_colon hname hname)]
  rfl

end ListedParameter

/-- What follows the first parameter of a list. -/
def furtherText (ps : List ListedParameter) : List Char :=
  ps.flatMap fun p => ", ".toList ++ p.text

/-- The text of a list of parameters. -/
def listText (ps : List ListedParameter) : List Char :=
  List.intercalate ", ".toList (ps.map ListedParameter.text)

@[simp] theorem listText_nil : listText [] = [] := rfl

theorem listText_cons (p : ListedParameter) (rest : List ListedParameter) :
    listText (p :: rest) = p.text ++ furtherText rest := by
  induction rest generalizing p with
  | nil => simp [listText, furtherText, List.intercalate]
  | cons q rest ih =>
    have hcons : listText (p :: q :: rest) = p.text ++ ", ".toList ++ listText (q :: rest) := by
      simp [listText, List.intercalate]
    rw [hcons, ih q]
    simp [furtherText]

/-- Behind the first parameter stands the list of the others, with a comma and a blank in front. -/
theorem furtherText_cons (q : ListedParameter) (rest : List ListedParameter) :
    furtherText (q :: rest) = ',' :: ' ' :: listText (q :: rest) := by
  rw [listText_cons]
  rfl

/-! ## Where angle brackets close -/

/-- The beginning of a list, up to some parameter: it keeps together, and only angle brackets are
open behind it. -/
structure Unbroken (cs : List Char) : Prop where
  trimmed : Trimmed cs
  keeps : ({} : Nesting).Keeps true cs
  run : ∃ dash, Nesting.run true {} cs = { angles := openAngles cs, afterDash := dash }

theorem ListedParameter.unbroken (p : ListedParameter) : Unbroken p.text := by
  obtain ⟨hkeeps, left, dash, hrun⟩ := p.run_text 0
  refine ⟨p.trimmed, hkeeps, dash, ?_⟩
  have hopen : openAngles p.text = left := congrArg Nesting.angles hrun
  rw [hopen]
  exact hrun

/-- Where an angle bracket is open, the comma behind a parameter does not separate. -/
theorem Unbroken.append {cs : List Char} (h : Unbroken cs) (hopen : openAngles cs ≠ 0)
    (q : ListedParameter) : Unbroken (cs ++ ", ".toList ++ q.text) := by
  obtain ⟨dash, hrun⟩ := h.run
  obtain ⟨hkeeps, left, dash', hq⟩ := q.run_text (openAngles cs)
  have hcomma : Nesting.run true { angles := openAngles cs, afterDash := dash } ", ".toList =
      { angles := openAngles cs } := by
    simp [Nesting.step, LiteralState.step, isQuote]
  have hrun' : Nesting.run true {} (cs ++ ", ".toList ++ q.text) =
      { angles := left, afterDash := dash' } := by
    rw [Nesting.run_append, Nesting.run_append, hrun, hcomma, hq]
  refine ⟨?_, ?_, dash', ?_⟩
  · rw [List.append_assoc]
    have hhead : ∀ c ∈ ", ".toList.head?, isBlank c = false := by
      rintro c ⟨⟩
      rfl
    exact (q.trimmed.append_left (by simp) hhead).append_left h.trimmed.ne_nil h.trimmed.head
  · rw [Nesting.keeps_append, Nesting.keeps_append, Nesting.run_append, hrun, hcomma]
    refine ⟨⟨h.keeps, ?_⟩, hkeeps⟩
    simp [Nesting.Keeps, Nesting.separates, hopen]
  · have hleft : openAngles (cs ++ ", ".toList ++ q.text) = left := congrArg Nesting.angles hrun'
    rw [hleft]
    exact hrun'

/-- A beginning without open angle brackets is the first part of its list. -/
theorem topLevelParts_closed {cs : List Char} (h : Unbroken cs) (hclosed : openAngles cs = 0)
    (rest : List ListedParameter) :
    topLevelParts (cs ++ furtherText rest) = cs :: topLevelParts (listText rest) := by
  obtain ⟨dash, hrun⟩ := h.run
  rw [hclosed] at hrun
  cases rest with
  | nil =>
    rw [furtherText, List.flatMap_nil, List.append_nil, listText_nil, topLevelParts_nil,
      topLevelParts_of_keeps h.keeps h.trimmed.trim_eq h.trimmed.ne_nil]
  | cons q rest =>
    rw [furtherText_cons, topLevelParts_append_comma h.keeps hrun, h.trimmed.trim_eq,
      topLevelParts_cons_of_blank rfl]

/-- Either some parameter closes all angle brackets, and everything up to it is one part, or the
whole list is one part. -/
theorem topLevelParts_cases {cs : List Char} (h : Unbroken cs) (rest : List ListedParameter) :
    (∃ mid after, rest = mid ++ after ∧ openAngles (cs ++ furtherText mid) = 0 ∧
      topLevelParts (cs ++ furtherText rest) =
        (cs ++ furtherText mid) :: topLevelParts (listText after)) ∨
    ((∀ mid, mid <+: rest → openAngles (cs ++ furtherText mid) ≠ 0) ∧
      topLevelParts (cs ++ furtherText rest) = [cs ++ furtherText rest]) := by
  induction rest generalizing cs with
  | nil =>
    by_cases hclosed : openAngles cs = 0
    · exact .inl ⟨[], [], rfl, by simpa [furtherText] using hclosed,
        by simpa [furtherText] using topLevelParts_closed h hclosed []⟩
    · refine .inr ⟨?_, ?_⟩
      · intro mid hmid
        rw [List.prefix_nil.mp hmid]
        simpa [furtherText] using hclosed
      · simpa [furtherText] using
          topLevelParts_of_keeps h.keeps h.trimmed.trim_eq h.trimmed.ne_nil
  | cons q rest ih =>
    by_cases hclosed : openAngles cs = 0
    · exact .inl ⟨[], q :: rest, rfl, by simpa [furtherText] using hclosed,
        by simpa [furtherText] using topLevelParts_closed h hclosed (q :: rest)⟩
    · have hassoc : ∀ ps, cs ++ ", ".toList ++ q.text ++ furtherText ps =
          cs ++ furtherText (q :: ps) := by
        intro ps
        simp [furtherText]
      obtain ⟨mid, after, rfl, hzero, hparts⟩ | ⟨hopen, hparts⟩ := ih (h.append hclosed q)
      · rw [hassoc] at hzero hparts
        rw [hassoc] at hparts
        exact .inl ⟨q :: mid, after, rfl, hzero, hparts⟩
      · rw [hassoc] at hparts
        refine .inr ⟨?_, hparts⟩
        intro mid hmid
        cases mid with
        | nil => simpa [furtherText] using hclosed
        | cons q' mid =>
          obtain ⟨rfl, hrest⟩ := List.cons_prefix_cons.mp hmid
          rw [← hassoc]
          exact hopen mid hrest

/-! ## The first cut -/

/-- Nothing that starts like a parameter stands behind a comma inside the type of the first
parameter of a list. -/
def CutsBehind (p : ListedParameter) (rest : List ListedParameter) : Prop :=
  ∀ before after, (before, after) ∈ commaSplits {} p.text →
    startsParameter (after ++ furtherText rest) = false

/-- Then the list is cut again behind its first parameter, if there are others. -/
theorem recut?_of_cutsBehind {p : ListedParameter} {rest : List ListedParameter}
    (h : CutsBehind p rest) :
    recut? (p.text ++ furtherText rest) =
      if rest.isEmpty then none else some (p.text, ' ' :: listText rest) := by
  obtain ⟨dash, hrun⟩ := p.run_blind
  have hnone : ((commaSplits {} p.text).map fun r => (r.1, r.2 ++ furtherText rest)).find?
      (fun r => startsParameter r.2) = none := by
    rw [List.find?_eq_none]
    rintro _ hmem
    obtain ⟨⟨before, after⟩, hsplit, rfl⟩ := List.mem_map.mp hmem
    simp [h before after hsplit]
  rw [recut?_eq, commaSplits_append, List.find?_append, hnone, Option.none_or, hrun]
  cases rest with
  | nil => rfl
  | cons q rest =>
    have hsep : ({ afterDash := dash } : Nesting).separates ',' = true := rfl
    have hstart : startsParameter (' ' :: listText (q :: rest)) = true := by
      rw [listText_cons]
      exact q.startsParameter_text _
    rw [furtherText_cons, commaSplits, if_pos hsep, List.map_cons,
      List.find?_cons_of_pos (by exact hstart)]
    simp

/-- Otherwise it is cut inside its first parameter. -/
theorem recut?_of_not_cutsBehind {p : ListedParameter} {rest : List ListedParameter}
    (h : ¬CutsBehind p rest) :
    ∃ before after, recut? (p.text ++ furtherText rest) = some (before, after) ∧
      before.length < p.text.length := by
  simp only [CutsBehind, not_forall, Bool.not_eq_false] at h
  obtain ⟨before, after, hsplit, hstart⟩ := h
  exact exists_recut?_append hsplit hstart

/-! ## Whole lists -/

section Whole

variable {p : ListedParameter} {rest : List ListedParameter}

theorem parameterParts_of_closed (hclosed : openAngles p.text = 0) :
    parameterParts (listText (p :: rest)) = p.text :: parameterParts (listText rest) := by
  rw [listText_cons, parameterParts_eq, topLevelParts_closed p.unbroken hclosed, List.flatMap_cons,
    refinedParts_of_closed hclosed, ← parameterParts_eq]
  rfl

/-- Where a later parameter closes what the first one leaves open, the first part is longer than the
first parameter. -/
theorem parameterParts_of_swallowed {mid after : List ListedParameter}
    (hopen : openAngles p.text ≠ 0) (hzero : openAngles (p.text ++ furtherText mid) = 0)
    (hparts : topLevelParts (listText (p :: rest)) =
      (p.text ++ furtherText mid) :: topLevelParts (listText after)) :
    (parameterParts (listText (p :: rest))).head? ≠ some p.text := by
  rw [parameterParts_eq, hparts, List.flatMap_cons, refinedParts_of_closed hzero]
  simp only [List.cons_append, List.nil_append, List.head?_cons, ne_eq, Option.some.injEq,
    List.append_right_eq_self]
  intro hnil
  rw [hnil, List.append_nil] at hzero
  exact hopen hzero

theorem parameterParts_of_cutsBehind (hcut : CutsBehind p rest)
    (hopen : openAngles (listText (p :: rest)) ≠ 0)
    (hparts : topLevelParts (listText (p :: rest)) = [listText (p :: rest)]) :
    parameterParts (listText (p :: rest)) = p.text :: parameterParts (listText rest) := by
  rw [parameterParts_eq, hparts, List.flatMap_singleton, refinedParts, if_neg hopen, listText_cons,
    recut?_of_cutsBehind hcut]
  cases rest with
  | nil => simp [furtherText]
  | cons q rest =>
    have hblank := parameterParts_append_of_blank (show isAllBlank [' '] = true from rfl)
      (listText (q :: rest))
    simp only [List.isEmpty_cons, Bool.false_eq_true, if_false, p.trimmed.trim_eq]
    exact congrArg (p.text :: ·) hblank

theorem parameterParts_of_not_cutsBehind (hcut : ¬CutsBehind p rest)
    (hopen : openAngles (listText (p :: rest)) ≠ 0)
    (hparts : topLevelParts (listText (p :: rest)) = [listText (p :: rest)]) :
    (parameterParts (listText (p :: rest))).head? ≠ some p.text := by
  obtain ⟨before, after, hrecut, hlength⟩ := recut?_of_not_cutsBehind hcut
  rw [parameterParts_eq, hparts, List.flatMap_singleton, refinedParts, if_neg hopen, listText_cons,
    hrecut]
  simp only [List.head?_cons, ne_eq, Option.some.injEq]
  intro heq
  have hle := length_trim_le before
  rw [heq] at hle
  omega

end Whole

/-- The first parameter of a list can be told apart from the others: no parameter closes what it
leaves open, and the first place to cut is behind it. -/
structure ToldApart (p : ListedParameter) (rest : List ListedParameter) : Prop where
  stays_open : ∀ mid, mid <+: rest → openAngles (listText (p :: mid)) ≠ 0
  cuts_behind : CutsBehind p rest

theorem forall_cons_suffix {P : ListedParameter → List ListedParameter → Prop}
    {p : ListedParameter} {ps : List ListedParameter} :
    (∀ q rest, q :: rest <:+ p :: ps → P q rest) ↔
      P p ps ∧ ∀ q rest, q :: rest <:+ ps → P q rest := by
  constructor
  · intro h
    exact ⟨h p ps (List.suffix_refl _), fun q rest hq => h q rest (hq.trans (List.suffix_cons _ _))⟩
  · rintro ⟨hp, hps⟩ q rest hq
    rcases List.suffix_cons_iff.mp hq with heq | hq
    · cases heq
      exact hp
    · exact hps q rest hq

/-- A list is cut into its parameters just if each parameter that leaves an angle bracket open can
be told apart from those behind it. -/
theorem parameterParts_listText_iff (ps : List ListedParameter) :
    parameterParts (listText ps) = ps.map ListedParameter.text ↔
      ∀ p rest, p :: rest <:+ ps → openAngles p.text ≠ 0 → ToldApart p rest := by
  induction ps with
  | nil => simp
  | cons p rest ih =>
    have hlost : (parameterParts (listText (p :: rest))).head? ≠ some p.text →
        parameterParts (listText (p :: rest)) ≠ (p :: rest).map ListedParameter.text := by
      intro hhead heq
      rw [heq] at hhead
      exact hhead rfl
    rw [forall_cons_suffix]
    by_cases hclosed : openAngles p.text = 0
    · simp [parameterParts_of_closed hclosed, ih, hclosed]
    · obtain ⟨mid, after, rfl, hzero, hparts⟩ | ⟨hopen, hparts⟩ :=
        topLevelParts_cases p.unbroken rest
      · rw [← listText_cons] at hparts
        refine iff_of_false (hlost (parameterParts_of_swallowed hclosed hzero hparts)) ?_
        rintro ⟨hapart, -⟩
        exact (hapart hclosed).stays_open mid (List.prefix_append _ _) (listText_cons p mid ▸ hzero)
      · have hapart : CutsBehind p rest ↔ ToldApart p rest :=
          ⟨fun hcut => ⟨fun mid hmid => listText_cons p mid ▸ hopen mid hmid, hcut⟩,
            ToldApart.cuts_behind⟩
        rw [← listText_cons] at hparts
        have hwhole : openAngles (listText (p :: rest)) ≠ 0 :=
          listText_cons p rest ▸ hopen rest (List.prefix_refl rest)
        by_cases hcut : CutsBehind p rest
        · simp [parameterParts_of_cutsBehind hcut hwhole hparts, ih, hapart.mp hcut]
        · refine iff_of_false (hlost (parameterParts_of_not_cutsBehind hcut hwhole hparts)) ?_
          rintro ⟨happ, -⟩
          exact hcut (happ hclosed).cuts_behind

/-- Two comparisons, the second of which closes what the first one opened. -/
def swallowedList : List ListedParameter := [
  { name := "a".toList, type := "Boolean".toList, default? := some "x < 3".toList
    name_isName := by decide, type_balanced := by decide, default_balanced := by decide
    last_solid := by rintro c ⟨⟩; rfl },
  { name := "b".toList, type := "Boolean".toList, default? := some "y > 2".toList
    name_isName := by decide, type_balanced := by decide, default_balanced := by decide
    last_solid := by rintro c ⟨⟩; rfl }]

theorem parameterParts_swallowedList :
    listText swallowedList = "a: Boolean = x < 3, b: Boolean = y > 2".toList ∧
      parameterParts (listText swallowedList) = ["a: Boolean = x < 3, b: Boolean = y > 2".toList] ∧
      parameterParts (listText swallowedList) ≠ swallowedList.map ListedParameter.text := by
  decide +kernel

end ComponentWiring.Source

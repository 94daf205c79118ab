import Mathlib.Data.List.Forall2
import Mathlib.Data.List.Nodup
import ComponentWiring.Proofs.Keyed
import ComponentWiring.Proofs.Source.Annotations
import ComponentWiring.Proofs.Source.Modifiers
import ComponentWiring.Source.ParameterText

/-!
The two readings of a parameter list agree. The parameters of a declaration and its default
expressions are read from the same parts by two readers that differ in the modifiers they know, in
the arguments they allow in annotations, and in how they get to the equals sign.
`defaultsOf_agrees_readParameters` says that where the first reader can use a list, the second finds
the same names and cuts at the same equals signs.

The argument goes part by part. Both readers go over the same annotations
(`annotations_eq_of_nameAndColon?`) and stop at the same name (`finish_eq_of_modified`), so that the
default reader reads from where the parameter reader had its colon (`defaultText?_eq`). What it
makes of the text there is compared with the type and the default of the parameter in
`defaultText?_eq_some`.
-/

namespace ComponentWiring.Source

open Text

/-! ## The same annotations -/

theorem not_at_of_nameAndColon? {allowed : List String} {cs last : List Char}
    {r : List Char × List Char} (hallowed : "" ∉ allowed) (h : Modified allowed cs last)
    (hlast : nameAndColon? last = some r) : '@' ∉ cs.head? := by
  intro hat
  have hword := h.isWordChar_head hallowed (isWordChar_head_of_nameAndColon? hlast) '@' hat
  exact Bool.false_ne_true (isWordChar_at.symm.trans hword)

/-- Where a parameter follows the annotations, both ways of reading annotations stop there. -/
theorem annotations_eq_of_nameAndColon? {allowed : List String} {fragment last : List Char}
    {r : List Char × List Char} (hallowed : "" ∉ allowed)
    (h : Modified allowed (annotations fragment).2 last) (hlast : nameAndColon? last = some r) :
    readAll (annotationWith? afterArguments) fragment = annotations fragment := by
  refine readAll_eq_readAll (fun cs r => annotationWith?_of_annotation?) ?_
  exact annotationWith?_of_head (not_at_of_nameAndColon? hallowed h hlast)

/-! ## The same name -/

theorem typedName?_eq_some {cs name rest : List Char} :
    typedName? cs = some (name, rest) ↔
      ∃ left, nameAndColon? cs = some (name, left) ∧ rest = trimStart left ∧ rest ≠ [] := by
  unfold typedName?
  cases nameAndColon? cs with
  | none => simp
  | some r =>
    obtain ⟨found, left⟩ := r
    simp only [Option.some.injEq, Prod.mk.injEq]
    constructor
    · intro h
      split at h
      · cases h
      · next hsolid =>
        cases h
        exact ⟨left, ⟨rfl, rfl⟩, rfl, by simpa using hsolid⟩
    · rintro ⟨_, ⟨rfl, rfl⟩, rfl, hsolid⟩
      simp [hsolid]

theorem modified_of_optionalPropertyWord {α : Type} {finish : List Char → Option α}
    {cs : List Char} {isProperty : Bool} {value : α}
    (h : optionalPropertyWord finish cs = some (isProperty, value)) :
    ∃ last, Modified propertyWords cs last ∧ finish last = some value := by
  have hhere : (finish cs).map (fun v => (false, v)) = some (isProperty, value) →
      ∃ last, Modified propertyWords cs last ∧ finish last = some value := by
    intro hh
    obtain ⟨v, hv, he⟩ := Option.map_eq_some_iff.mp hh
    cases he
    exact ⟨cs, .none cs, hv⟩
  unfold optionalPropertyWord at h
  simp only at h
  split at h
  · exact hhere h
  · next word rest hword =>
    split at h
    · next v hv =>
      cases h
      exact ⟨rest, .word hword (.none rest), hv⟩
    · exact hhere h

/-- A parameter stands behind its annotations and its modifiers, up to the colon. -/
theorem exists_name_of_parameterText? {fragment : List Char} {p : ParameterText}
    (h : parameterText? fragment = some p) :
    ∃ last left, p.modifiers ⊆ parameterModifiers ∧
      Modified (p.modifiers ++ propertyWords) (annotations fragment).2 last ∧
      nameAndColon? last = some (p.name.toList, left) ∧ p.rest = trimStart left ∧ p.rest ≠ [] := by
  obtain ⟨⟨words, isProperty, name, rest⟩, hread, he⟩ := Option.bind_eq_some_iff.mp h
  cases he
  obtain ⟨hsub, mid, hmod, hmid⟩ := modified_of_withModifiers hread
  obtain ⟨last, hproperty, hlast⟩ := modified_of_optionalPropertyWord hmid
  obtain ⟨left, hname, hrest, hsolid⟩ := typedName?_eq_some.mp hlast
  refine ⟨last, left, hsub, ?_, ?_, hrest, hsolid⟩
  · exact (hmod.mono (List.subset_append_left _ _)).trans
      (hproperty.mono (List.subset_append_right _ _))
  · rw [hname, String.toList_ofList]

theorem readsName_namedDefault? : ReadsName namedDefault? := by
  intro cs value h
  obtain ⟨r, hr, -⟩ := Option.bind_eq_some_iff.mp h
  exact ⟨r, hr⟩

theorem usableParameter_eq_ok {fragment : List Char} {p : ParameterText} :
    usableParameter fragment = .ok p ↔
      parameterText? fragment = some p ∧ "vararg" ∉ p.modifiers := by
  unfold usableParameter
  cases parameterText? fragment with
  | none => simp
  | some found =>
    by_cases hvararg : "vararg" ∈ found.modifiers
    · simp only [List.contains_iff_mem, hvararg, if_true, Option.some.injEq]
      constructor
      · intro h
        cases h
      · rintro ⟨rfl, hnot⟩
        exact absurd hvararg hnot
    · simp only [List.contains_iff_mem, hvararg, if_false, Option.some.injEq, Except.ok.injEq]
      constructor
      · rintro rfl
        exact ⟨rfl, hvararg⟩
      · exact fun h => h.1

/-- Every word before a usable parameter is one that the default reader takes for a modifier. -/
theorem subset_defaultModifiers {words : List String} (hsub : words ⊆ parameterModifiers)
    (hvararg : "vararg" ∉ words) : words ++ propertyWords ⊆ defaultModifiers := by
  have hknown : ∀ w ∈ parameterModifiers, w ≠ "vararg" → w ∈ defaultModifiers := by decide
  have hproperty : propertyWords ⊆ defaultModifiers := by decide
  refine List.append_subset.mpr ⟨fun w hw => hknown w (hsub hw) ?_, hproperty⟩
  rintro rfl
  exact hvararg hw

/-- The default reader reads on from the colon of the parameter. -/
theorem defaultText?_eq {fragment : List Char} {p : ParameterText}
    (h : usableParameter fragment = .ok p) :
    ∃ last left, nameAndColon? last = some (p.name.toList, left) ∧ p.rest = trimStart left ∧
      p.rest ≠ [] ∧ defaultText? fragment = namedDefault? last := by
  obtain ⟨htext, hvararg⟩ := usableParameter_eq_ok.mp h
  obtain ⟨last, left, hsub, hmod, hname, hrest, hsolid⟩ := exists_name_of_parameterText? htext
  have hdefault := hmod.mono (subset_defaultModifiers hsub hvararg)
  have hwords : "" ∉ defaultModifiers := by decide
  refine ⟨last, left, hname, hrest, hsolid, ?_⟩
  rw [defaultText?, annotations_eq_of_nameAndColon? hwords hdefault hname]
  exact finish_eq_of_modified hwords readsName_namedDefault? hdefault hname

/-! ## The same equals sign -/

/-- The text behind the first equals sign that follows the type. -/
def ParameterText.default? (p : ParameterText) : Option (List Char) :=
  (splitFirst '=' p.rest).map Prod.snd

theorem ParameterText.hasDefault_iff (p : ParameterText) :
    p.hasDefault = true ↔ ∃ d, p.default? = some d ∧ isAllBlank d = false := by
  unfold ParameterText.hasDefault ParameterText.default?
  cases splitFirst '=' p.rest with
  | none => simp
  | some r => simp

theorem ParameterText.typeText_eq_nil_iff (p : ParameterText) (hrest : p.rest ≠ []) :
    p.typeText = [] ↔ p.rest.head? = some '=' := by
  unfold ParameterText.typeText beforeFirst
  cases hcs : p.rest with
  | nil => exact absurd hcs hrest
  | cons c cs => by_cases hc : c = '=' <;> simp [hc]

/-- What the default reader makes of the text behind the colon. -/
theorem namedDefault?_eq {last name left : List Char}
    (hname : nameAndColon? last = some (name, left)) :
    namedDefault? last = (splitFirst '=' left).bind fun (type, expression) =>
      if type.isEmpty ∨ isAllBlank expression then none else some (name, trimStart expression) := by
  simp [namedDefault?, hname, Option.bind]

/-- The default that is read is the one that the parameter has, without its leading blanks. It is
missed only if there is no type and not even a blank in its place. -/
theorem defaultText?_eq_some {fragment : List Char} {p : ParameterText}
    (h : usableParameter fragment = .ok p) {name expression : List Char}
    (hread : defaultText? fragment = some (name, expression)) :
    name = p.name.toList ∧ p.hasDefault = true ∧
      ∃ d, p.default? = some d ∧ expression = trimStart d := by
  obtain ⟨last, left, hname, hrest, -, heq⟩ := defaultText?_eq h
  rw [heq, namedDefault?_eq hname] at hread
  obtain ⟨⟨type, d⟩, hsplit, hsome⟩ := Option.bind_eq_some_iff.mp hread
  simp only [not_or, ite_eq_iff, reduceCtorEq, and_false, Option.some.injEq, Prod.mk.injEq,
    false_or] at hsome
  obtain ⟨⟨-, hblank⟩, rfl, rfl⟩ := hsome
  have hd : p.default? = some d := by
    rw [ParameterText.default?, hrest, splitFirst_trimStart rfl, hsplit]
    rfl
  exact ⟨rfl, p.hasDefault_iff.mpr ⟨d, hd, by simpa using hblank⟩, d, hd, rfl⟩

theorem defaultText?_of_default? {fragment : List Char} {p : ParameterText}
    (h : usableParameter fragment = .ok p) {d : List Char} (hd : p.default? = some d)
    (hsolid : isAllBlank d = false) (htype : p.typeText ≠ []) :
    defaultText? fragment = some (p.name.toList, trimStart d) := by
  obtain ⟨last, left, hname, hrest, hne, heq⟩ := defaultText?_eq h
  rw [ParameterText.default?, hrest, splitFirst_trimStart rfl] at hd
  obtain ⟨⟨type, d'⟩, hsplit, rfl⟩ := Option.map_eq_some_iff.mp hd
  have hnotEmpty : type ≠ [] := by
    rintro rfl
    -- The equals sign comes right behind the colon, so that no type is left in between.
    have hleft : left = '=' :: d' := splitFirst_eq_some hsplit
    refine htype ((p.typeText_eq_nil_iff hne).mpr ?_)
    rw [hrest, hleft]
    rfl
  rw [heq, namedDefault?_eq hname, hsplit]
  simp [hnotEmpty, hsolid]

/-! ## The same expression -/

theorem withoutComments_blank {c : Char} (hc : isBlank c = true) (cs : List Char) :
    withoutComments (.source .code) (c :: cs) = c :: withoutComments (.source .code) cs := by
  have hslash : c ≠ '/' := ne_of_isBlank hc rfl
  have hquote : isQuote c = false := isQuote_of_class (p := isBlank) rfl hc
  rw [withoutComments, LiteralState.step_code_of_not_isQuote hquote]
  simp [hslash]

/-- Blanks in front of an expression do not matter. -/
theorem bareExpression_trimStart (cs : List Char) :
    bareExpression (trimStart cs) = bareExpression cs := by
  induction cs with
  | nil => rfl
  | cons c cs ih =>
    cases hc : isBlank c with
    | true =>
      rw [trimStart_cons_of_blank hc, ih, bareExpression, bareExpression, withoutComments_blank hc,
        trim_cons_of_blank hc]
    | false => rw [trimStart_eq_self (by simpa using hc)]

theorem isAllBlank_eq_false_of_bareExpression {d : List Char} (h : bareExpression d ≠ []) :
    isAllBlank d = false := by
  cases hd : isAllBlank d with
  | false => rfl
  | true =>
    rw [← bareExpression_trimStart, trimStart_eq_nil_iff.mpr hd] at h
    exact absurd rfl h

/-- What one part of a list contributes to the table of defaults. -/
def defaultPair? (fragment : List Char) : Option (String × String) :=
  (defaultText? fragment).bind fun (name, expression) =>
    let cleaned := bareExpression expression
    if cleaned.isEmpty then none else some (String.ofList name, String.ofList cleaned)

theorem defaultsOf_eq_ofList (list : List Char) :
    defaultsOf list = Keyed.ofList ((parameterParts list).filterMap defaultPair?) := by
  unfold defaultsOf Keyed.ofList
  generalize Keyed.empty = table
  induction parameterParts list generalizing table with
  | nil => rfl
  | cons fragment parts ih =>
    rw [List.foldl_cons, ih, List.filterMap_cons, defaultPair?]
    cases defaultText? fragment with
    | none => rfl
    | some r =>
      obtain ⟨name, expression⟩ := r
      cases hempty : (bareExpression expression).isEmpty <;>
        simp only [Option.bind_some, hempty] <;> rfl

theorem defaultPair?_eq_some {fragment : List Char} {p : ParameterText}
    (h : usableParameter fragment = .ok p) {key value : String}
    (hentry : defaultPair? fragment = some (key, value)) :
    key = p.name ∧ p.hasDefault = true ∧
      ∃ d, p.default? = some d ∧ value = String.ofList (bareExpression d) := by
  obtain ⟨⟨name, expression⟩, hread, hsome⟩ := Option.bind_eq_some_iff.mp hentry
  obtain ⟨rfl, hhas, d, hd, rfl⟩ := defaultText?_eq_some h hread
  simp only [ite_eq_iff, reduceCtorEq, and_false, Option.some.injEq, Prod.mk.injEq,
    false_or] at hsome
  obtain ⟨-, rfl, rfl⟩ := hsome
  exact ⟨String.ofList_toList, hhas, d, hd, by rw [bareExpression_trimStart]⟩

theorem defaultPair?_of_default? {fragment : List Char} {p : ParameterText}
    (h : usableParameter fragment = .ok p) {d : List Char} (hd : p.default? = some d)
    (hclean : bareExpression d ≠ []) (htype : p.typeText ≠ []) :
    defaultPair? fragment = some (p.name, String.ofList (bareExpression d)) := by
  have hread := defaultText?_of_default? h hd (isAllBlank_eq_false_of_bareExpression hclean) htype
  simp [defaultPair?, hread, bareExpression_trimStart, hclean]

/-! ## Whole lists -/

theorem exists_of_mem_of_forall₂ {α β : Type} {R : α → β → Prop} {xs : List α} {ys : List β}
    (h : List.Forall₂ R xs ys) {x : α} (hx : x ∈ xs) : ∃ y ∈ ys, R x y := by
  induction h with
  | nil => cases hx
  | cons hxy _ ih =>
    rcases List.mem_cons.mp hx with rfl | hx
    · exact ⟨_, List.mem_cons_self, hxy⟩
    · obtain ⟨y, hy, hxy⟩ := ih hx
      exact ⟨y, List.mem_cons_of_mem _ hy, hxy⟩

theorem mapM_eq_ok_iff {α β ε : Type} {f : α → Except ε β} {xs : List α} {ys : List β} :
    xs.mapM f = .ok ys ↔ List.Forall₂ (fun x y => f x = .ok y) xs ys := by
  induction xs generalizing ys with
  | nil =>
    simp only [List.mapM_nil, List.forall₂_nil_left_iff]
    exact ⟨fun h => (Except.ok.inj h).symm, fun h => h ▸ rfl⟩
  | cons x xs ih =>
    rw [List.mapM_cons, List.forall₂_cons_left_iff]
    cases hx : f x with
    | error e => simp [bind, Except.bind]
    | ok y =>
      cases hxs : xs.mapM f with
      | error e => simp [bind, Except.bind, ← ih, hxs]
      | ok zs => simp [bind, Except.bind, pure, Except.pure, ← ih, hxs, eq_comm]

/-- The text behind the colon stands at the end of the part that a parameter is read from. -/
theorem rest_suffix_of_parameterText? {fragment : List Char} {p : ParameterText}
    (h : parameterText? fragment = some p) : p.rest <:+ fragment := by
  obtain ⟨last, left, -, hmod, hname, hrest, -⟩ := exists_name_of_parameterText? h
  rw [hrest]
  calc trimStart left <:+ left := trimStart_suffix left
    _ <:+ last := suffix_of_nameAndColon? hname
    _ <:+ (annotations fragment).2 := hmod.suffix
    _ <:+ fragment := annotations_suffix fragment

section Entries

variable {parts : List (List Char)} {texts : List ParameterText}
  (h : List.Forall₂ (fun part t => usableParameter part = .ok t) parts texts)

include h

/-- Only defaults that the parameters have are in the table. -/
theorem exists_default_of_mem_entries {key value : String}
    (hmem : (key, value) ∈ parts.filterMap defaultPair?) :
    ∃ t ∈ texts, key = t.name ∧ t.hasDefault = true ∧
      ∃ d, t.default? = some d ∧ value = String.ofList (bareExpression d) := by
  obtain ⟨part, hpart, hentry⟩ := List.mem_filterMap.mp hmem
  obtain ⟨t, ht, husable⟩ := exists_of_mem_of_forall₂ h hpart
  exact ⟨t, ht, defaultPair?_eq_some husable hentry⟩

/-- Every default that has a type before it and leaves anything without comments is in the table. -/
theorem mem_entries_of_default? {t : ParameterText} (ht : t ∈ texts) {d : List Char}
    (hd : t.default? = some d) (htype : t.typeText ≠ []) (hclean : bareExpression d ≠ []) :
    (t.name, String.ofList (bareExpression d)) ∈ parts.filterMap defaultPair? := by
  obtain ⟨part, hpart, husable⟩ := exists_of_mem_of_forall₂ h.flip ht
  exact List.mem_filterMap.mpr ⟨part, hpart, defaultPair?_of_default? husable hd hclean htype⟩

end Entries

/-- The texts that the parameters of a list have in its parts. -/
structure ParameterTexts (parts : List (List Char)) (texts : List ParameterText)
    (ps : List Parameter) : Prop where
  /-- Each text is read from its part and ends with it. -/
  read : List.Forall₂ (fun part t => parameterText? part = some t ∧ t.rest <:+ part) parts texts
  /-- Each parameter has the name of its text, and a default if that has one. -/
  same : List.Forall₂ (fun (t : ParameterText) p => p.name = t.name ∧ p.hasDefault = t.hasDefault)
    texts ps

/-- A table of defaults that agrees with the parameters of the same list. -/
structure DefaultsAgree (texts : List ParameterText) (ps : List Parameter)
    (defaults : Keyed String) : Prop where
  /-- Only parameters with a default are in the table. -/
  sound : ∀ key value, defaults.get? key = some value →
    ∃ p ∈ ps, p.name = key ∧ p.hasDefault = true
  /-- Every parameter with a default is, if it has a type and the default is more than comments. -/
  complete : ∀ t ∈ texts, t.hasDefault = true → t.typeText ≠ [] →
    ∀ d, t.default? = some d → bareExpression d ≠ [] → defaults.contains t.name = true
  /-- Where no two parameters share a name, the table holds what stands behind the first equals
  sign that follows the type of the parameter, without comments. -/
  exact : (ps.map (·.name)).Nodup → ∀ t ∈ texts, ∀ value, defaults.get? t.name = some value →
    ∃ d, t.default? = some d ∧ value = String.ofList (bareExpression d)

theorem ParameterTexts.map_name {parts : List (List Char)} {texts : List ParameterText}
    {ps : List Parameter} (h : ParameterTexts parts texts ps) :
    ps.map (·.name) = texts.map (·.name) := by
  rw [← List.forall₂_eq_eq_eq, List.forall₂_map_left_iff, List.forall₂_map_right_iff]
  exact h.same.flip.imp fun p t hpt => hpt.1

theorem readParameters_eq_ok {list : List Char} {imports : Imports} {fallback : Convention}
    {ps : List Parameter} (h : readParameters list imports fallback = .ok ps) :
    ∃ texts, List.Forall₂ (fun part t => usableParameter part = .ok t) (parameterParts list) texts ∧
      ParameterTexts (parameterParts list) texts ps := by
  unfold readParameters at h
  cases htexts : (parameterParts list).mapM usableParameter with
  | error e => simp [htexts, bind, Except.bind] at h
  | ok texts =>
    simp only [htexts, bind, Except.bind, pure, Except.pure, Except.ok.injEq] at h
    subst h
    have husable := mapM_eq_ok_iff.mp htexts
    refine ⟨texts, husable, husable.imp fun part t ht => ?_, ?_⟩
    · have htext := (usableParameter_eq_ok.mp ht).1
      exact ⟨htext, rest_suffix_of_parameterText? htext⟩
    · rw [List.forall₂_map_right_iff]
      exact List.forall₂_same.mpr fun t _ => ⟨rfl, rfl⟩

/-- The two readings of a parameter list agree wherever the first one succeeds. -/
theorem defaultsOf_agrees_readParameters {list : List Char} {imports : Imports}
    {fallback : Convention} {ps : List Parameter}
    (h : readParameters list imports fallback = .ok ps) :
    ∃ texts, ParameterTexts (parameterParts list) texts ps ∧
      DefaultsAgree texts ps (defaultsOf list) := by
  obtain ⟨texts, husable, htexts⟩ := readParameters_eq_ok h
  refine ⟨texts, htexts, ?_, ?_, ?_⟩
  · intro key value hget
    rw [defaultsOf_eq_ofList] at hget
    obtain ⟨t, ht, rfl, hhas, -⟩ :=
      exists_default_of_mem_entries husable (Keyed.mem_of_get?_ofList hget)
    obtain ⟨p, hp, hname, hdefault⟩ := exists_of_mem_of_forall₂ htexts.same ht
    exact ⟨p, hp, hname, hdefault.trans hhas⟩
  · intro t ht _ htype d hd hclean
    rw [defaultsOf_eq_ofList]
    exact Keyed.contains_ofList_of_mem (mem_entries_of_default? husable ht hd htype hclean)
  · intro hnodup t ht value hget
    rw [defaultsOf_eq_ofList] at hget
    obtain ⟨t', ht', hname, -, d, hd, hvalue⟩ :=
      exists_default_of_mem_entries husable (Keyed.mem_of_get?_ofList hget)
    obtain rfl := List.inj_on_of_nodup_map (htexts.map_name ▸ hnodup) ht ht' hname
    exact ⟨d, hd, hvalue⟩

/-- A list with a modifier for a name, an annotation with arguments, an equals sign in a literal and
a comment. -/
def trickyList : List Char :=
  "@Marked(1) open val open : Int = 3, b: String= \"=\" /* c */".toList

theorem defaultsOf_agrees_on_trickyList :
    ∃ ps, readParameters trickyList {} .markToInject = .ok ps ∧ ps.map (·.name) = ["open", "b"] ∧
      ∃ texts, ParameterTexts (parameterParts trickyList) texts ps ∧
        DefaultsAgree texts ps (defaultsOf trickyList) := by
  have hnames : (readParameters trickyList {} .markToInject).toOption.map (·.map (·.name)) =
      some ["open", "b"] := by decide +kernel
  cases h : readParameters trickyList {} .markToInject with
  | error fault =>
    rw [h] at hnames
    cases hnames
  | ok ps =>
    rw [h] at hnames
    exact ⟨ps, rfl, Option.some.inj hnames, defaultsOf_agrees_readParameters h⟩

end ComponentWiring.Source

import ComponentWiring.Proofs.Code.InertFiles
import ComponentWiring.Proofs.Source.Headers
import ComponentWiring.Proofs.Source.ParameterLines
import ComponentWiring.Proofs.Text.Pieces

/-!
Generated factories, read back. The constructor of a factory that is generated for a class with
ASCII names is found again in the file: it has no parameter list if nothing is injected
(`constructorStretch?_planned_eq_none`), and else one whose parts are the fields of the factory
(`exists_constructorStretch?_planned`).

Class and parameters may be named with the words of class heads, as in `fun create(): class {`. In
the file these words stand in front of a punctuation mark or of a body, so that no line but that of
the factory opens a class with a name (`FactoryFile.CodeLine.nameless`).
-/

namespace ComponentWiring

open Text Source

/-! ## Names of ASCII characters -/

namespace Source

/-- ASCII names joined by dots, none of which is a word that introduces a class. -/
def IsAsciiPath (name : String) : Prop :=
  ∀ part ∈ segments '.' name.toList, IsAsciiName part ∧ String.ofList part ∉ classWords

instance (name : String) : Decidable (IsAsciiPath name) :=
  inferInstanceAs (Decidable (∀ part ∈ segments '.' name.toList, _))

/-- A type that is written with such names at any depth, and with nothing that is kept verbatim. -/
inductive AsciiType : TypeExpr → Prop
  | intro {type : TypeExpr} (verbatim : type.isOpaque = false) (path : IsAsciiPath type.name)
      (arguments : ∀ argument ∈ type.arguments, AsciiType argument) : AsciiType type

namespace IsAsciiPath

variable {name : String}

theorem isDottedChar_of_mem (h : IsAsciiPath name) : ∀ c ∈ name.toList, isDottedChar c = true := by
  intro c hc
  have hpath : ['.'].intercalate (segments '.' name.toList) = name.toList := intercalate_segments _
  rw [← hpath] at hc
  rcases mem_of_mem_intercalate hc with hc | ⟨part, hpart, hc⟩
  · exact List.mem_singleton.mp hc ▸ by decide
  · simp [isDottedChar, (h part hpart).1.isName.2 c hc]

theorem freeOf (h : IsAsciiPath name) : FreeOf classWords name.toList := by
  have hparts : ∀ {parts : List (List Char)},
      (∀ part ∈ parts, IsAsciiName part ∧ String.ofList part ∉ classWords) →
        FreeOf classWords (['.'].intercalate parts) := by
    intro parts hall
    induction parts with
    | nil => decide
    | cons part parts ih =>
      obtain ⟨⟨hname, hword⟩, hrest⟩ := List.forall_mem_cons.mp hall
      have hfirst : FreeOf classWords part := (freeOf_word hname.isName.2).mpr hword
      cases parts with
      | nil => rwa [List.intercalate_singleton]
      | cons next parts =>
        rw [List.intercalate_cons_cons, List.append_assoc, List.singleton_append]
        exact (freeOf_append_cons (by decide)).mpr ⟨hfirst, ih hrest⟩
  have hpath : ['.'].intercalate (segments '.' name.toList) = name.toList := intercalate_segments _
  rw [← hpath]
  exact hparts h

theorem lastPart_mem (name : String) :
    (TypeExpr.lastPart name).toList ∈ segments '.' name.toList := by
  rw [TypeExpr.lastPart, String.toList_ofList, afterLast]
  split
  · next before after hsplit =>
    rw [splitLast_eq_some hsplit, segments_append_sep, segments_of_not_mem
      (not_mem_of_splitLast hsplit)]
    exact List.mem_append_right _ List.mem_cons_self
  · next hsplit =>
    have hnone : '.' ∉ name.toList := fun hmem => by
      obtain ⟨before, after, hsome⟩ := exists_splitLast_of_mem hmem
      simp [hsplit] at hsome
    rw [segments_of_not_mem hnone]
    exact List.mem_cons_self

end IsAsciiPath

namespace AsciiType

variable {type : TypeExpr}

theorem spelled (h : AsciiType type) : Spelled type := by
  induction h with
  | intro verbatim path _ ih => exact .intro verbatim (path _ (IsAsciiPath.lastPart_mem _)).1 ih

theorem readable {imports : Imports} (h : AsciiType type)
    (hresolve : ∀ name ∈ type.typeNames, imports.resolve (TypeExpr.lastPart name) = name) :
    Readable imports [] type := by
  induction h with
  | @intro type verbatim path _ ih =>
    obtain ⟨name, arguments, nullable, isOpaque⟩ := type
    simp only at verbatim
    subst verbatim
    simp only [TypeExpr.typeNames, TypeExpr.typeNamesOf_eq_flatMap, Bool.false_eq_true, if_false,
      List.singleton_append, List.forall_mem_cons] at hresolve
    refine .intro rfl (path _ (IsAsciiPath.lastPart_mem _)).1 (by simpa using hresolve.1) ?_
    exact fun argument hargument => ih argument hargument fun name hname =>
      hresolve.2 name (List.mem_flatMap.mpr ⟨argument, hargument, hname⟩)

theorem isDottedChar_of_mem_typeNames (h : AsciiType type) :
    ∀ name ∈ type.typeNames, ∀ c ∈ name.toList, isDottedChar c = true := by
  induction h with
  | @intro type verbatim path _ ih =>
    obtain ⟨name, arguments, nullable, isOpaque⟩ := type
    simp only at verbatim
    subst verbatim
    simp only [TypeExpr.typeNames, TypeExpr.typeNamesOf_eq_flatMap, Bool.false_eq_true, if_false,
      List.singleton_append, List.forall_mem_cons]
    refine ⟨path.isDottedChar_of_mem, fun name hname => ?_⟩
    obtain ⟨argument, hargument, hname⟩ := List.mem_flatMap.mp hname
    exact ih argument hargument name hname

theorem plain_render (h : AsciiType type) : Plain type.render.toList := by
  induction h with
  | @intro type verbatim path _ ih =>
    obtain ⟨hname, hword⟩ := path _ (IsAsciiPath.lastPart_mem _)
    have hfirst : Plain (TypeExpr.lastPart type.name).toList :=
      .of_freeOf ((freeOf_word hname.isName.2).mpr (by simpa using hword))
        fun hsign => absurd (hname.2 '@' hsign) (by decide)
    have hbody : Plain ((TypeExpr.lastPart type.name).toList ++ argumentText type.arguments) := by
      unfold argumentText
      split
      · rwa [List.append_nil]
      · refine hfirst.append_cons (by decide) (.concat (.intercalate ?_) (by decide))
        exact List.forall_mem_map.mpr ih
    rw [toList_render verbatim]
    cases type.nullable with
    | false => rwa [nullMark, if_neg Bool.false_ne_true, List.append_nil]
    | true => exact hbody.concat (by decide)

end AsciiType

end Source

/-- A class with ASCII names, whose defaults hold no word that introduces a class. -/
structure Declaration.IsAscii (d : Declaration) : Prop where
  name : ∀ c ∈ d.name.toList, c.toNat < 128
  parameters : ∀ p ∈ d.parameters, ∀ c ∈ p.name.toList, c.toNat < 128
  types : ∀ p ∈ d.parameters, AsciiType p.type
  package : d.package = "" ∨ IsAsciiPath d.package
  stars : ∀ star ∈ d.starImports, IsAsciiPath star
  defaults : ∀ p ∈ d.parameters, ∀ expression, p.defaultExpression = some expression →
    FreeOf classWords expression.toList

namespace Declaration.IsAscii

variable {d : Declaration} (h : d.IsAscii)

include h

theorem hasDottedNames : d.HasDottedNames where
  package := by
    rcases h.package with hempty | hpath
    · simp [hempty]
    · exact hpath.isDottedChar_of_mem
  packageWords := by
    rcases h.package with hempty | hpath
    · rw [hempty]
      decide
    · exact hpath.freeOf
  types p hp := (h.types p hp).isDottedChar_of_mem_typeNames
  stars star hstar := (h.stars star hstar).isDottedChar_of_mem

end Declaration.IsAscii

namespace FactoryFile

variable {d : Declaration} {exportable : Bool} {mode : Mode} {policy : Policy}

/-- An identifier of ASCII characters is a name to the readers of source text. -/
theorem isAsciiName_of_isIdentifier {name : String} (h : isIdentifier name = true)
    (hascii : ∀ c ∈ name.toList, c.toNat < 128) : IsAsciiName name.toList := by
  unfold isIdentifier at h
  cases hname : name.toList with
  | nil => simp [hname] at h
  | cons first rest =>
    simp only [hname, Bool.and_eq_true, Bool.or_eq_true, beq_iff_eq, List.all_eq_true] at h
    have hlow : ∀ c ∈ first :: rest, ¬0x80 ≤ c.toNat :=
      fun c hc => Nat.not_le.mpr (hascii c (hname ▸ hc))
    have hfirst : isNameStart first = true := by
      have hstart := h.1
      simp only [isAlphabetic, hlow first List.mem_cons_self, decide_false, Bool.false_and,
        Bool.or_false] at hstart
      simpa [isNameStart] using hstart
    refine ⟨⟨first, rfl, hfirst⟩, List.forall_mem_cons.mpr ⟨?_, fun c hc => ?_⟩⟩
    · simp only [isNameStart, Bool.or_eq_true] at hfirst
      simp only [isAsciiWordChar, Bool.or_eq_true]
      exact hfirst.imp_left .inl
    · have hword := h.2 c hc
      simp only [isAlphanumeric, isAlphabetic, isNumeric, hlow c (List.mem_cons_of_mem _ hc),
        decide_false, Bool.false_and, Bool.or_false, Bool.or_eq_true] at hword
      simpa [isAsciiWordChar] using hword

end FactoryFile

/-! ## Lines without named classes -/

namespace Source.Nameless

variable {as cs : List Char} {c : Char}

theorem cons (hc : isWordChar c = false) (h : Nameless cs) : Nameless (c :: cs) := by
  have hfirst : FreeOf classWords [c] := (freeOf_cons hc).mpr ⟨by decide, by decide⟩
  show Nameless ([] ++ c :: cs)
  exact append_cons hc (of_headFree (.of_freeOf hfirst)) h

/-- Behind a stretch without blanks, whatever its words. -/
theorem solid_append (has : ∀ c ∈ as, isSolid c = true) (hc : isWordChar c = false)
    (hsolid : isSolid c = true) (h : Nameless cs) : Nameless (as ++ c :: cs) := by
  simp only [isSolid, Bool.not_eq_true', Bool.or_eq_false_iff, beq_eq_false_iff_ne] at has hsolid
  refine append_cons hc (of_headFree (.of_solid fun d hd => ?_)) h
  rcases List.mem_append.mp hd with hd | hd
  · exact (has d hd).1
  · exact List.mem_singleton.mp hd ▸ hsolid.1

/-- Behind a text that ends outside words. -/
theorem behind {front : String}
    (hfront : FreeOf classWords front.toList ∧ front.toList.getLast?.all (!isWordChar ·) = true)
    (h : Nameless cs) : Nameless (front.toList ++ cs) := by
  obtain ⟨hfree, hlast⟩ := hfront
  rcases List.eq_nil_or_concat front.toList with heq | ⟨as, c, heq⟩
  · rwa [heq, List.nil_append]
  · rw [heq, List.concat_eq_append] at hfree hlast ⊢
    have hc : isWordChar c = false := by simpa using hlast
    rw [List.append_assoc]
    exact append_cons hc (of_headFree (.of_freeOf hfree)) h

end Source.Nameless

/-- A line that opens no class with a name, with its line break. -/
def NamelessLine (line : String) : Prop :=
  Nameless (line.toList ++ ['\n'])

theorem NamelessLine.of_freeOf {line : String} (h : FreeOf classWords line.toList) :
    NamelessLine line :=
  .of_headFree (.of_freeOf ((freeOf_append_cons (by decide)).mpr ⟨h, by decide⟩))

theorem NamelessLine.of_inertLine {line : String} (h : InertLine line) : NamelessLine line :=
  .of_headFree h.heads

theorem nameless_layout {lines : List String} (h : ∀ line ∈ lines, NamelessLine line) :
    Nameless (layout lines) := by
  induction lines with
  | nil => exact .of_headFree (.of_freeOf (by decide))
  | cons line lines ih =>
    obtain ⟨hline, hlines⟩ := List.forall_mem_cons.mp h
    rw [layout_cons]
    exact hline.append_cons (by decide) (ih hlines)

namespace FactoryFile

variable {d : Declaration} {exportable : Bool} {mode : Mode} {policy : Policy}

/-- A parameter has its name, whatever it is, in front of a colon. -/
theorem exists_line_eq {p : Parameter} (htype : AsciiType p.type)
    (hdefault : ∀ expression, p.defaultExpression = some expression →
      FreeOf classWords expression.toList) :
    ∃ text, p.line.toList = p.name.toList ++ ':' :: text ∧ FreeOf classWords text := by
  have hsignature : FreeOf classWords (' ' :: p.type.render.toList) :=
    (freeOf_cons (by decide)).mpr ⟨by decide, htype.plain_render.words⟩
  cases hexpression : p.defaultExpression with
  | none => exact ⟨_, by simp [Parameter.line, hexpression, Parameter.signature], hsignature⟩
  | some expression =>
    refine ⟨' ' :: p.type.render.toList ++ ' ' :: '=' :: ' ' :: expression.toList,
      by simp [Parameter.line, hexpression, Parameter.signature], ?_⟩
    have hvalue := (freeOf_cons (c := ' ') (by decide)).mpr
      ⟨by decide, hdefault expression hexpression⟩
    exact (freeOf_append_cons (by decide)).mpr
      ⟨hsignature, (freeOf_cons (by decide)).mpr ⟨by decide, hvalue⟩⟩

/-- A field of a factory, as it is written. -/
def fieldLine (p : Parameter) : String :=
  "private val " ++ p.signature

/-- The texts of the fields of a factory. -/
def fieldTexts (d : Declaration) : List (List Char) :=
  d.injected.map fun p => (fieldLine p).toList

section Lines

variable (h : d.IsAscii) (hnamed : WellNamed d)

include h hnamed

theorem isName_name : IsName d.name.toList :=
  (isAsciiName_of_isIdentifier hnamed.name h.name).isName

theorem isAsciiName_of_mem_parameters {p : Parameter} (hp : p ∈ d.parameters) :
    IsAsciiName p.name.toList :=
  isAsciiName_of_isIdentifier (hnamed.parameters p hp) (h.parameters p hp)

theorem isSolid_of_mem_parameters {p : Parameter} (hp : p ∈ d.parameters) :
    ∀ c ∈ p.name.toList, isSolid c = true := fun c hc =>
  isSolid_of_isWordChar ((isAsciiName_of_mem_parameters h hnamed hp).isName.2 c hc)

/-- A parameter as it is written with a colon. -/
theorem nameless_typed {p : Parameter} (hp : p ∈ d.parameters) {comma : String} {text : List Char}
    (htext : FreeOf classWords text) (hcomma : comma ∈ ["", ","]) :
    Nameless (p.name.toList ++ ':' :: (text ++ (comma.toList ++ ['\n']))) := by
  refine .solid_append (isSolid_of_mem_parameters h hnamed hp) (by decide) (by decide)
    (.of_headFree (.of_freeOf ?_))
  simp only [List.mem_cons, List.not_mem_nil, or_false] at hcomma
  rcases hcomma with rfl | rfl
  · exact (freeOf_append_cons (by decide)).mpr ⟨htext, by decide⟩
  · exact (freeOf_append_cons (by decide)).mpr ⟨htext, by decide⟩

/-- Parameters as they are passed on. -/
theorem nameless_arguments {ps : List Parameter} (hps : ps ⊆ d.parameters) :
    Nameless ((argumentText ps).toList ++ [')', '\n']) := by
  have hend : Nameless [')', '\n'] := .of_headFree (.of_freeOf (by decide))
  rw [argumentText, String.toList_intercalate, List.map_map]
  induction ps with
  | nil => simpa using hend
  | cons p ps ih =>
    have hp := isSolid_of_mem_parameters h hnamed (hps List.mem_cons_self)
    cases ps with
    | nil =>
      have hlast := Nameless.solid_append hp (c := ')') (by decide) (by decide)
        (show Nameless ['\n'] from .of_headFree (.of_freeOf (by decide)))
      simpa using hlast
    | cons q ps =>
      have hrest := ih (List.subset_of_cons_subset hps)
      have hcomma := Nameless.solid_append hp (c := ',') (by decide) (by decide)
        (hrest.cons (c := ' ') (by decide))
      simpa [List.intercalate_cons_cons] using hcomma

/-- Only the name of the factory stands behind a word of class heads. -/
theorem CodeLine.nameless {line : String} (hline : CodeLine d mode line) : NamelessLine line := by
  have hname := isName_name h hnamed
  have hsolid : ∀ c ∈ d.name.toList, isSolid c = true :=
    fun c hc => isSolid_of_isWordChar (hname.2 c hc)
  cases hline with
  | closed hmem =>
    have hall : ∀ line ∈ closedLines, FreeOf classWords line.toList := by decide
    exact .of_freeOf (hall line hmem)
  | handle =>
    refine .of_freeOf ?_
    cases mode <;> decide
  | @field p hp comma hcomma =>
    have hmem := (List.mem_filter.mp hp).1
    have htype : FreeOf classWords (' ' :: p.type.render.toList) :=
      (freeOf_cons (by decide)).mpr ⟨by decide, (h.types p hmem).plain_render.words⟩
    have hfield : Nameless ("    private val ".toList ++ _) :=
      .behind (by decide) (nameless_typed h hnamed hmem htype hcomma)
    simpa [NamelessLine, Parameter.signature] using hfield
  | @parameter p hp margin comma hmargin hcomma =>
    have hmem := (List.mem_filter.mp hp).1
    obtain ⟨text, heq, htext⟩ := exists_line_eq (h.types p hmem) (h.defaults p hmem)
    have hall : ∀ margin ∈ ["    ", "        "], FreeOf classWords margin.toList ∧
        margin.toList.getLast?.all (!isWordChar ·) = true := by decide
    have hparameter := Nameless.behind (hall margin hmargin)
      (nameless_typed h hnamed hmem htext hcomma)
    simpa [NamelessLine, heq] using hparameter
  | block =>
    have htype : Nameless "() -> Unit = \x7b\x7d\n".toList :=
      .of_headFree (.of_freeOf (by decide))
    have hblock : Nameless ("    block: ".toList ++ _) := .behind (by decide)
      (.solid_append hsolid (c := '.') (by decide) (by decide) htype)
    simpa [NamelessLine] using hblock
  | @returns front hfront =>
    have hall : ∀ front ∈ returnFronts, FreeOf classWords front.toList ∧
        front.toList.getLast?.all (!isWordChar ·) = true := by decide
    have hbody : Nameless ['\x7b', '\n'] := .of_headFree (.of_freeOf (by decide))
    have hreturns := Nameless.behind (hall front hfront) (.word_append hname.2 hbody)
    simpa [NamelessLine] using hreturns
  | @call front callee hmem ps hps =>
    have hall : (FreeOf classWords front.toList ∧
        front.toList.getLast?.all (!isWordChar ·) = true) ∧
          ∀ c ∈ callee.toList, isSolid c = true := by
      simp only [callFronts, List.mem_cons, Prod.mk.injEq, List.not_mem_nil, or_false] at hmem
      rcases hmem with ⟨rfl, rfl⟩ | ⟨rfl, rfl⟩ | ⟨rfl, rfl⟩
      · exact ⟨by decide, hsolid⟩
      · exact ⟨by decide, List.all_eq_true.mp (by decide)⟩
      · exact ⟨by decide, hsolid⟩
    have hcall := Nameless.behind hall.1
      (.solid_append hall.2 (c := '(') (by decide) (by decide) (nameless_arguments h hnamed hps))
    simpa [NamelessLine] using hcall
  | builder => exact .of_inertLine (inertLine_builderHead hname)
  | fetch => exact .of_inertLine (inertLine_fetch hname)

end Lines

/-! ## The constructor of the factory -/

/-- What stands between the parentheses of a factory. -/
def fieldList (d : Declaration) : List Char :=
  '\n' :: unlines (commaLines 4 (fieldTexts d))

theorem map_toList_withCommas (lines : List String) :
    ((withCommas lines).map ("    " ++ ·)).map String.toList =
      commaLines 4 (lines.map String.toList) := by
  induction lines with
  | nil => rfl
  | cons line lines ih =>
    cases lines with
    | nil => simp [withCommas, commaLines, List.replicate]
    | cons next lines =>
      rw [withCommas, List.map_cons, List.map_cons, ih]
      · simp [commaLines, List.replicate]
      · simp

theorem layout_fields (d : Declaration) (mode : Mode) :
    '\n' :: layout ((factoryPart d mode).fields.map ("    " ++ ·)) = fieldList d := by
  have htexts : (d.injected.map fun p => "private val " ++ p.signature).map String.toList =
      fieldTexts d := List.map_map
  rw [layout, factoryPart, map_toList_withCommas, htexts, fieldList]

section Fields

variable (h : d.IsAscii) (hnamed : WellNamed d) {text : List Char}

include h hnamed

/-- A field is one part of a list, without comments. -/
theorem field_laidOut (htext : text ∈ fieldTexts d) :
    IsBalanced true text ∧ Trimmed text ∧ Silent text := by
  obtain ⟨p, hmem, rfl⟩ := List.mem_map.mp htext
  have hp := (List.mem_filter.mp hmem).1
  have hname := isAsciiName_of_mem_parameters h hnamed hp
  have htype := (h.types p hp).spelled
  have hplain : IsBalanced true p.name.toList := .of_isPlain <| List.all_eq_true.mpr fun c hc =>
    isPlain_of_class (p := isAsciiWordChar) (by decide) (hname.2 c hc)
  have hfront : IsBalanced true "private val ".toList := .of_isPlain (by decide)
  have hcolon : IsBalanced true ": ".toList := .of_isPlain (by decide)
  rw [fieldLine, Parameter.signature, String.toList_append, String.toList_append,
    String.toList_append]
  refine ⟨hfront.append ((hplain.append hcolon).append htype.balanced), ?_, ?_⟩
  · rw [← List.append_assoc]
    exact htype.trimmed.append_left (by simp) (by simp; decide)
  · let p (c : Char) : Bool := isTypeChar c || c == ':'
    have hclosed : ("private val ".toList ++ ": ".toList).all p = true := by decide
    refine .of_class (p := p) (by decide) fun c hc => ?_
    simp only [List.all_append, Bool.and_eq_true, List.all_eq_true] at hclosed
    simp only [List.mem_append, or_assoc] at hc
    rcases hc with hc | hc | hc | hc
    · exact hclosed.1 c hc
    · simp [p, isTypeChar, hname.2 c hc]
    · exact hclosed.2 c hc
    · simp [p, htype.isTypeChar_of_mem c hc]

theorem passesBy_fieldList : PassesBy (fieldList d) := by
  have hbreak : PassesBy ['\n'] := .singleton (by decide)
  exact hbreak.append (passesBy_unlines fun line hline => passesBy_of_mem_commaLines
    (fun text htext => (field_laidOut h hnamed htext).1) hline)

theorem silent_fieldList : Silent ('(' :: (fieldList d ++ [')'])) := by
  have hlines : Silent (unlines (commaLines 4 (fieldTexts d))) :=
    .unlines fun line hline => silent_of_mem_commaLines
      (fun text htext => (field_laidOut h hnamed htext).2.2) hline
  have hend : Silent [')'] := .of_not_mem (by decide) (by decide)
  exact ((hlines.cons (by decide) rfl).append hend (by simp)).cons (by decide) rfl

theorem parameterParts_fieldList : parameterParts (fieldList d) = fieldTexts d :=
  parameterParts_commaLines 4 (fun _ htext => (field_laidOut h hnamed htext).1)
    fun _ htext => (field_laidOut h hnamed htext).2.1

end Fields

/-- What stands behind the name of the factory. -/
def behindName (d : Declaration) (exportable : Bool) (mode : Mode) : List Char :=
  (factoryPart d mode).headEnd.toList ++ '\n' ::
    layout ((factoryPart d mode).memberLines d.name ++ builderLines d exportable mode true)

theorem fields_eq_nil_iff : (factoryPart d mode).fields = [] ↔ d.injected = [] := by
  have hwith : ∀ {lines : List String}, withCommas lines = [] ↔ lines = [] := by
    intro lines
    cases lines with
    | nil => simp [withCommas]
    | cons line lines => cases lines <;> simp [withCommas]
  rw [factoryPart, hwith, List.map_eq_nil_iff]

theorem behindName_of_nil (hinjected : d.injected = []) :
    ∃ rest, behindName d exportable mode = ' ' :: '\x7b' :: rest := by
  have hfields : (factoryPart d mode).fields.isEmpty = true :=
    List.isEmpty_iff.mpr (fields_eq_nil_iff.mpr hinjected)
  unfold behindName FactoryPart.headEnd
  rw [if_pos hfields]
  exact ⟨_, rfl⟩

theorem behindName_of_ne_nil (hinjected : d.injected ≠ []) :
    ∃ rest, behindName d exportable mode = '(' :: (fieldList d ++ ')' :: ' ' :: rest) := by
  have hfields : (factoryPart d mode).fields.isEmpty = false := by
    simpa using fun hnil => hinjected (fields_eq_nil_iff.mp hnil)
  unfold behindName FactoryPart.headEnd FactoryPart.memberLines
  rw [← layout_fields d mode, if_neg (by simp [hfields]), if_neg (by simp [hfields])]
  exact ⟨_, by simp; rfl⟩

theorem head?_behindName : ∀ c ∈ (behindName d exportable mode).head?, c = ' ' ∨ c = '(' := by
  unfold behindName FactoryPart.headEnd
  split <;> simp

/-- The heads in a file with a factory: there is one, and every one is that of the factory. -/
theorem classHeads_planned (exportable : Bool) (mode : Mode) (h : d.IsAscii) (hnamed : WellNamed d)
    (hfactory : hasFactory d policy = true) :
    classHeads (blankComments (layout (planned d exportable mode policy).lines)) ≠ [] ∧
      ∀ found ∈ classHeads (blankComments (layout (planned d exportable mode policy).lines)),
        found.value.name = d.factoryName ∧
          found.rest = blankComments (behindName d exportable mode) := by
  have hname := isName_factoryName (isName_name h hnamed)
  have hfront : Preamble (layout (frontLines d exportable mode true ++
      mode.factoryAnnotations)) := preamble_layout fun line hline =>
    (List.mem_append.mp hline).elim (preambleLine_of_mem_frontLines h.hasDottedNames)
      preambleLine_annotation
  have hlines : layout (planned d exportable mode policy).lines =
      layout (frontLines d exportable mode true ++ mode.factoryAnnotations) ++
        ("class".toList ++ ' ' :: (d.factoryName.toList ++ behindName d exportable mode)) := by
    rw [lines_planned, hfactory]
    simp [FactoryPart.layout_lines, factoryPart, behindName]
  have hbehind : Nameless (behindName d exportable mode) := by
    have hend : Nameless ((factoryPart d mode).headEnd.toList ++ ['\n']) := by
      refine .of_headFree (.of_freeOf ?_)
      unfold FactoryPart.headEnd
      split <;> decide
    refine hend.append_cons (by decide) (nameless_layout fun line hline => ?_)
    have hcode : CodeLine d mode line :=
      (List.mem_append.mp hline).elim codeLine_of_mem_memberLines codeLine_of_mem_builderLines
    exact hcode.nameless h hnamed
  have hhead : ∀ c ∈ (blankComments (behindName d exportable mode)).head?, precedesHead c = true :=
    fun c => precedesHead_of_blankComments head?_behindName
  rw [hlines, blankComments_class hfront.silent hname head?_behindName]
  refine ⟨?_, fun found hfound => ?_⟩
  · have hnone (rest : List Char) : annotations ('c' :: "lass ".toList ++ rest) =
        ([], 'c' :: "lass ".toList ++ rest) := annotations_of_head (by simp)
    refine occurrences_ne_nil (classHead?_of_annotations ?_ (hnone _) hname fun c hc => ?_)
    · exact (Option.all_eq_true _ _).mpr fun c hc => eq_of_mem_getLast?_layout hc ▸ by decide
    · exact isWordChar_of_precedesHead (hhead c hc)
  · have hmem := eq_of_mem_classHeads hfront.inert.heads hfront.ends hname
      (by simpa using factoryName_not_mem_classWords) (hbehind.mask _) hhead hfound
    exact ⟨by simpa using hmem.1, hmem.2.1⟩

/-- Without injected parameters no class of the file has a parameter list. -/
theorem constructorStretch?_planned_eq_none (h : d.IsAscii) (hnamed : WellNamed d)
    (hinjected : d.injected = []) :
    constructorStretch? (blankComments (layout (planned d exportable mode policy).lines))
      d.factoryName = none := by
  refine List.findSome?_eq_none_iff.mpr fun found hfound => ?_
  have himplicit : (Header.read found.stop found.rest).shape = .implicit := by
    cases hfactory : hasFactory d policy with
    | true =>
      obtain ⟨rest, hrest⟩ : ∃ rest, behindName d exportable mode = ' ' :: '\x7b' :: rest :=
        behindName_of_nil hinjected
      have hbehind := ((classHeads_planned exportable mode h hnamed hfactory).2 found hfound).2
      rw [hbehind, hrest, blankComments, CommentState.mask_cons_of_ne (by decide),
        CommentState.mask_cons_of_ne (by decide)]
      exact Header.shape_read_of_body _ _
    | false =>
      have hlines : Nameless (layout (planned d exportable mode policy).lines) := by
        rw [lines_planned, hfactory]
        refine nameless_layout fun line hline => ?_
        simp only [Bool.false_eq_true, if_false, List.append_nil, List.mem_append] at hline
        rcases hline with hfront | hbuilder
        · exact .of_inertLine (preambleLine_of_mem_frontLines h.hasDottedNames hfront).inert
        · exact CodeLine.nameless h hnamed (codeLine_of_mem_builderLines hbuilder)
      rw [blankComments, (hlines.mask _).classHeads_eq_nil] at hfound
      cases hfound
  simp only [himplicit, ite_self]

/-- With injected parameters the factory has a parameter list, and the fields are its parts. -/
theorem exists_constructorStretch?_planned (h : d.IsAscii) (hnamed : WellNamed d)
    (hinjected : d.injected ≠ []) : ∃ inside,
      constructorStretch? (blankComments (layout (planned d exportable mode policy).lines))
        d.factoryName = some inside ∧ parameterParts inside.text = fieldTexts d := by
  have hfactory : hasFactory d policy = true := by
    rw [← Bool.not_eq_false, hasFactory_eq_false_iff]
    exact fun hnone => hinjected hnone.1
  obtain ⟨hne, hall⟩ := classHeads_planned exportable mode h hnamed hfactory
  obtain ⟨found, others, heads⟩ := List.exists_cons_of_ne_nil hne
  obtain ⟨hname, hbehind⟩ := hall found (heads ▸ List.mem_cons_self)
  obtain ⟨rest, hrest⟩ : ∃ rest,
      behindName d exportable mode = '(' :: (fieldList d ++ ')' :: ' ' :: rest) :=
    behindName_of_ne_nil hinjected
  have hmask : blankComments (behindName d exportable mode) =
      '(' :: (fieldList d ++ ')' :: blankComments (' ' :: rest)) := by
    have hfields : blankComments ('(' :: (fieldList d ++ [')']) ++ ' ' :: rest) =
        '(' :: (fieldList d ++ [')']) ++ blankComments (' ' :: rest) :=
      (silent_fieldList h hnamed).blankComments_append (by simp)
    simpa [hrest] using hfields
  refine ⟨⟨found.stop + 1, fieldList d⟩, ?_, parameterParts_fieldList h hnamed⟩
  simp only [constructorStretch?, heads, List.findSome?_cons, hname, if_true, hbehind, hmask,
    Header.read_of_open (passesBy_fieldList h hnamed), Header.shape_readTail]

end FactoryFile

/-! ## Generated files -/

open FactoryFile

/-- The constructor of a generated factory, read back from the file: there is none if nothing is
injected, else it lists the injected parameters in order, and each of their types is read back
wherever its simple names stand for the full ones. -/
structure Artifact.ReadsBackAs (a : Artifact) (d : Declaration) : Prop where
  noFields : d.injected = [] →
    constructorStretch? (blankComments a.content.toList) d.factoryName = none
  fields : d.injected ≠ [] → ∃ inside,
    constructorStretch? (blankComments a.content.toList) d.factoryName = some inside ∧
      parameterParts inside.text =
        d.injected.map fun p => ("private val " ++ p.name ++ ": " ++ p.type.render).toList
  types : ∀ p ∈ d.injected, ∀ imports : Imports,
    (∀ name ∈ p.type.typeNames, imports.resolve (TypeExpr.lastPart name) = name) →
      readType imports [] p.type.render.toList = p.type

namespace Declaration

variable {d : Declaration} {exportable : Bool} {mode : Mode} {policy : Policy}

/-- The file of a class with ASCII names is read back, for every mode and policy. -/
theorem artifact?_readBack (hascii : d.IsAscii) {a : Artifact}
    (h : d.artifact? exportable mode policy = .ok (some a)) : a.ReadsBackAs d := by
  obtain ⟨⟨hnamed, -⟩, rfl⟩ := valid_of_artifact? h
  have hcontent : ((planned d exportable mode policy).laidOut).content.toList =
      layout (planned d exportable mode policy).lines := String.toList_ofList
  have htexts : fieldTexts d =
      d.injected.map fun p => ("private val " ++ p.name ++ ": " ++ p.type.render).toList := by
    refine List.map_congr_left fun p _ => ?_
    rw [fieldLine, Parameter.signature, String.append_assoc, String.append_assoc]
    rfl
  refine ⟨fun hinjected => ?_, fun hinjected => ?_, fun p hp imports hresolve => ?_⟩
  · rw [hcontent]
    exact constructorStretch?_planned_eq_none hascii hnamed hinjected
  · rw [hcontent, ← htexts]
    exact exists_constructorStretch?_planned hascii hnamed hinjected
  · exact readType_render ((hascii.types p (List.mem_filter.mp hp).1).readable hresolve)

/-- A class with a nested type, and with parameters that are named with words of class heads. -/
def ledger : Declaration :=
  { name := "Ledger"
    package := "app.books"
    parameters := [
      { name := "class"
        type := { name := "kotlin.collections.Map", arguments := [
          { name := "kotlin.String" },
          { name := "kotlin.collections.List", arguments := [
            { name := "app.books.Entry", nullable := true }] }] }
        role := .injected },
      { name := "title", type := { name := "kotlin.String" }, role := .exposed, hasDefault := true,
        defaultExpression := some "\"(\"" },
      { name := "object", type := { name := "java.time.Clock" }, role := .injected }]
    starImports := ["app.shared"] }

theorem artifact?_readBack_ledger : ledger.IsAscii ∧
    ∃ a, ledger.artifact? true .quarkus .directConstruction = .ok (some a) ∧
      a.ReadsBackAs ledger := by
  have htype {name : String} (hpath : IsAsciiPath name) (nullable : Bool) :
      AsciiType { name, nullable } := .intro rfl hpath (by simp)
  have hlist : AsciiType { name := "kotlin.collections.List", arguments := [
      { name := "app.books.Entry", nullable := true }] } :=
    .intro rfl (by decide) (List.forall_mem_singleton.mpr (htype (by decide) true))
  have hmap : AsciiType { name := "kotlin.collections.Map", arguments := [
      { name := "kotlin.String" }, { name := "kotlin.collections.List", arguments := [
        { name := "app.books.Entry", nullable := true }] }] } :=
    .intro rfl (by decide) (by simpa using ⟨htype (by decide) false, hlist⟩)
  have hascii : ledger.IsAscii :=
    { name := by decide
      parameters := by decide
      types := by
        simp only [ledger, List.forall_mem_cons]
        exact ⟨hmap, htype (by decide) false, htype (by decide) false, by simp⟩
      package := .inr (by decide)
      stars := by decide
      defaults := by
        simp only [ledger, List.forall_mem_cons]
        refine ⟨by simp, ?_, by simp, by simp⟩
        rintro _ ⟨⟩
        decide }
  have hwell : WellNamed ledger := ⟨by decide, by decide, by decide⟩
  have hfree : FreeOfReserved ledger .quarkus true := by
    unfold FreeOfReserved
    decide
  have hplan : plan ledger true .quarkus .directConstruction = .ok (some (planned ..)) :=
    plan_eq_ok_some_iff.mpr ⟨hwell, .inr rfl, fun _ => hfree, rfl⟩
  have hgenerated := artifact?_eq_ok_some_iff.mpr ⟨_, hplan, rfl⟩
  exact ⟨hascii, _, hgenerated, artifact?_readBack hascii hgenerated⟩

end Declaration

end ComponentWiring

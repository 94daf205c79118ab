import ComponentWiring.Proofs.Code.ImportBlocks
import ComponentWiring.Proofs.Source.InertTexts

/-!
The lines that generated files share. A line is inert if no class opens in it and no property is
marked in it, with its line break; inert lines make an inert text (`inert_layout`). The lines at the
head of a file can also stand in front of a class without getting into its head
(`preamble_layout`). The texts of parameters and types are `Copyable` where they are plain, so that
a line that copies them is plain as well.
-/

namespace ComponentWiring

open Text Source

/-! ## Lines -/

/-- A line that is inert with its line break. -/
def InertLine (line : String) : Prop :=
  Inert (line.toList ++ ['\n'])

/-- A line that can stand in front of an unmarked class. -/
structure PreambleLine (line : String) : Prop where
  silent : Silent line.toList
  inert : InertLine line
  unmarked : MarkFree classMarker line.toList

section Lines

variable {line : String} {lines : List String}

theorem InertLine.of_plain (h : Plain line.toList) : InertLine line :=
  (h.concat (by decide)).inert

theorem inert_layout (h : ∀ line ∈ lines, InertLine line) : Inert (layout lines) := by
  induction lines with
  | nil => exact Plain.nil.inert
  | cons line lines ih =>
    obtain ⟨hline, hlines⟩ := List.forall_mem_cons.mp h
    rw [layout_cons]
    exact hline.append_cons (by decide) (ih hlines)

/-- Every line ends in a line break. -/
theorem eq_of_mem_getLast?_layout {c : Char} (hc : c ∈ (layout lines).getLast?) : c = '\n' := by
  rcases List.eq_nil_or_concat lines with rfl | ⟨front, last, rfl⟩
  · simp at hc
  · rw [List.concat_eq_append, layout_append, layout_cons, layout_nil, ← List.append_assoc,
      List.getLast?_concat] at hc
    exact (Option.some.inj hc).symm

theorem preamble_layout (h : ∀ line ∈ lines, PreambleLine line) : Preamble (layout lines) := by
  refine ⟨.unlines ?_, inert_layout fun line hline => (h line hline).inert, ?_, fun c hc => ?_⟩
  · exact List.forall_mem_map.mpr fun line hline => (h line hline).silent
  · induction lines with
    | nil => exact markFree_of_not_mem (by simp)
    | cons line lines ih =>
      obtain ⟨hline, hlines⟩ := List.forall_mem_cons.mp h
      rw [layout_cons]
      exact (markFree_append_cons (by decide)).mpr ⟨hline.unmarked, ih hlines⟩
  · exact eq_of_mem_getLast?_layout hc ▸ by decide

/-- A closed text with something plain behind it. -/
theorem plain_behind {text : String} {cs : List Char}
    (htext : Plain text.toList ∧ text.toList.getLast?.all precedesHead = true) (h : Plain cs) :
    Plain (text.toList ++ cs) := by
  obtain ⟨hplain, hlast⟩ := htext
  rcases List.eq_nil_or_concat text.toList with heq | ⟨front, c, heq⟩
  · rwa [heq, List.nil_append]
  · rw [heq, List.concat_eq_append] at hplain hlast ⊢
    have hc : precedesHead c = true := by simpa using hlast
    rw [List.append_assoc]
    exact ((plain_append_cons hc).mp hplain).1.append_cons hc h

theorem inert_behind {text : String} {cs : List Char}
    (htext : Plain text.toList ∧ text.toList.getLast?.all precedesHead = true) (h : Inert cs) :
    Inert (text.toList ++ cs) := by
  obtain ⟨hplain, hlast⟩ := htext
  rcases List.eq_nil_or_concat text.toList with heq | ⟨front, c, heq⟩
  · rwa [heq, List.nil_append]
  · rw [heq, List.concat_eq_append] at hplain hlast ⊢
    rw [List.append_assoc]
    exact hplain.inert.append_cons (by simpa using hlast) h

/-- A closed text in front of which something plain stands. -/
theorem plain_before {text : String} {cs : List Char} (h : Plain cs)
    (htext : Plain text.toList ∧ text.toList.head?.all precedesHead = true) :
    Plain (cs ++ text.toList) := by
  obtain ⟨hplain, hhead⟩ := htext
  cases heq : text.toList with
  | nil => rwa [List.append_nil]
  | cons c rest =>
    rw [heq] at hplain hhead
    have hc : precedesHead c = true := by simpa using hhead
    exact h.append_cons hc (hplain.within (.append_cons_right hc [] rest))

theorem plain_of_mem_commas {comma : String} (h : comma ∈ ["", ","]) :
    Plain comma.toList ∧ comma.toList.head?.all precedesHead = true := by
  have hall : ∀ comma ∈ ["", ","], Plain comma.toList ∧
      comma.toList.head?.all precedesHead = true := by decide
  exact hall comma h

end Lines

/-! ## Texts that are copied -/

/-- A type whose name and arguments can be copied. -/
structure TypeExpr.Copyable (type : TypeExpr) : Prop where
  render : Plain type.render.toList
  names : ∀ name ∈ type.typeNames, ∀ c ∈ name.toList, isDottedChar c = true

/-- A parameter whose name, type and default can be copied. -/
structure Parameter.Copyable (p : Parameter) : Prop where
  name : FreeOf classWords p.name.toList
  type : p.type.Copyable
  expression : ∀ expression, p.defaultExpression = some expression → Plain expression.toList

/-- The one argument of a type is as copyable as the type. -/
theorem TypeExpr.Copyable.element {type element : TypeExpr} (h : type.Copyable)
    (hnamed : type.isOpaque = false) (harguments : type.arguments = [element]) :
    element.Copyable where
  render := by
    have hrender := h.render
    rw [toList_render hnamed, harguments] at hrender
    simp only [argumentText, List.isEmpty_cons, Bool.false_eq_true, if_false, List.map_cons,
      List.map_nil, List.intercalate_singleton, List.append_assoc, List.cons_append] at hrender
    exact ((plain_append_cons (by decide)).mp ((plain_append_cons (by decide)).mp hrender).2).1
  names := by
    intro name hname
    refine h.names name ?_
    obtain ⟨typeName, arguments, nullable, isOpaque⟩ := type
    simp only at harguments
    rw [TypeExpr.typeNames, harguments, TypeExpr.typeNamesOf, TypeExpr.typeNamesOf]
    simp [hname]

section Parameters

variable {p : Parameter} (h : p.Copyable) (hsign : '@' ∉ p.name.toList)

include h hsign

theorem Parameter.Copyable.plain_signature : Plain p.signature.toList := by
  have hname : Plain (p.name.toList ++ [':']) :=
    .of_freeOf ((freeOf_append_cons (by decide)).mpr ⟨h.name, by decide⟩) (by simpa using hsign)
  simpa [Parameter.signature] using hname.append_cons (c := ' ') (by decide) h.type.render

theorem Parameter.Copyable.plain_line : Plain p.line.toList := by
  have hsignature := h.plain_signature hsign
  unfold Parameter.line
  split
  · next expression hexpression =>
    have hvalue := (h.expression expression hexpression).cons (c := ' ') (by decide)
    simpa using hsignature.append_cons (c := ' ') (by decide) (hvalue.cons (c := '=') (by decide))
  · exact hsignature

end Parameters

theorem plain_argumentText {ps : List Parameter}
    (h : ∀ p ∈ ps, FreeOf classWords p.name.toList ∧ '@' ∉ p.name.toList) :
    Plain (FactoryFile.argumentText ps).toList := by
  rw [FactoryFile.argumentText, String.toList_intercalate]
  refine .intercalate ?_
  simpa using fun p hp => Plain.of_freeOf (h p hp).1 (h p hp).2

/-! ## The head of a file -/

/-- A name that an import line can have: a dotted one, or a package as a whole. -/
inductive ImportedName : String → Prop
  | single {name : String} (chars : ∀ c ∈ name.toList, isDottedChar c = true)
    (dot : '.' ∈ name.toList) : ImportedName name
  | star {owner : String} (chars : ∀ c ∈ owner.toList, isDottedChar c = true) :
    ImportedName (owner ++ ".*")

/-- A character of a package line or an import line. -/
def isPreambleChar (c : Char) : Bool :=
  isDottedChar c || c == ' ' || c == '*'

theorem isPreambleChar_of_isDottedChar {c : Char} (h : isDottedChar c = true) :
    isPreambleChar c = true := by
  simp [isPreambleChar, h]

theorem PreambleLine.of_chars {line : String} (h : ∀ c ∈ line.toList, isPreambleChar c = true)
    (hinert : InertLine line) : PreambleLine line where
  silent := .of_class (by decide) h
  inert := hinert
  unmarked := markFree_of_not_mem fun hsign => absurd (h '@' hsign) (by decide)

theorem preambleLine_package {package line : String}
    (hchars : ∀ c ∈ package.toList, isDottedChar c = true)
    (hwords : FreeOf classWords package.toList) (h : line ∈ packageLines package) :
    PreambleLine line := by
  have hblank : PreambleLine "" := .of_chars (by simp) (.of_plain (by decide))
  unfold packageLines at h
  split at h
  · cases h
  · rcases List.mem_cons.mp h with rfl | h
    · refine .of_chars (fun c hc => ?_) (.of_plain ?_)
      · rcases List.mem_append.mp (String.toList_append ▸ hc) with hc | hc
        · exact List.all_eq_true.mp (by decide) c hc
        · exact isPreambleChar_of_isDottedChar (hchars c hc)
      · rw [String.toList_append]
        exact plain_behind (by decide) (.of_freeOf hwords (not_sign_of_dotted hchars))
    · exact List.mem_singleton.mp h ▸ hblank

theorem ImportedName.isPreambleChar {name : String} (h : ImportedName name) {c : Char}
    (hc : c ∈ name.toList) : isPreambleChar c = true := by
  cases h with
  | single hchars _ => exact isPreambleChar_of_isDottedChar (hchars c hc)
  | star hchars =>
    rcases List.mem_append.mp (String.toList_append ▸ hc) with hc | hc
    · exact isPreambleChar_of_isDottedChar (hchars c hc)
    · exact List.all_eq_true.mp (by decide) c hc

theorem ImportedName.inert {name : String} (h : ImportedName name) : InertLine name := by
  cases h with
  | single hchars hdot => exact .of_dotted hchars hdot (by decide)
  | @star owner hchars =>
    have hsolid : ∀ c ∈ owner.toList ++ ['.'], isSolid c = true := by
      refine fun c hc => isSolid_of_isDottedChar ?_
      rcases List.mem_append.mp hc with hc | hc
      · exact hchars c hc
      · exact List.mem_singleton.mp hc ▸ by decide
    have hstar := Inert.solid_append hsolid (c := '*') (by decide) (by decide)
      (Plain.nil.cons (c := '\n') (by decide)).inert
    simpa [InertLine] using hstar

theorem preambleLine_import {name : String} (h : ImportedName name) :
    PreambleLine ("import " ++ name) := by
  refine .of_chars (fun c hc => ?_) ?_
  · rcases List.mem_append.mp (String.toList_append ▸ hc) with hc | hc
    · exact List.all_eq_true.mp (by decide) c hc
    · exact h.isPreambleChar hc
  · rw [InertLine, String.toList_append, List.append_assoc]
    exact inert_behind (by decide) h.inert

theorem preambleLine_of_mem_lines {names : List String} {package line : String}
    (h : ∀ name ∈ names, ImportedName name) (hline : line ∈ ImportBlock.lines names package) :
    PreambleLine line := by
  obtain ⟨name, hname, rfl⟩ := List.mem_map.mp hline
  exact preambleLine_import (h name (List.mem_filter.mp hname).1)

theorem importedName_starName {stars : List String} {name : String}
    (h : ∀ star ∈ stars, ∀ c ∈ star.toList, isDottedChar c = true)
    (hname : name ∈ ImportBlock.starNames stars) : ImportedName name := by
  obtain ⟨owner, howner, -, rfl⟩ := ImportBlock.mem_starNames.mp hname
  exact .star (h owner howner)

theorem importedName_of_typeNames {type : TypeExpr}
    (h : ∀ name ∈ type.typeNames, ∀ c ∈ name.toList, isDottedChar c = true) {name : String}
    (hname : name ∈ type.importNames) : ImportedName name := by
  rw [TypeExpr.importNames_eq_filter, List.mem_filter] at hname
  refine .single (h name hname.1) ?_
  have hdot := (Bool.and_eq_true_iff.mp hname.2).1
  simpa using hdot

theorem importedName_of_closed {name : String}
    (h : (name.toList.all isDottedChar && name.toList.contains '.') = true) :
    ImportedName name := by
  obtain ⟨hchars, hdot⟩ := Bool.and_eq_true_iff.mp h
  exact .single (List.all_eq_true.mp hchars) (by simpa using hdot)

end ComponentWiring

import ComponentWiring.Proofs.Code.FactoryLines
import ComponentWiring.Proofs.Code.InertLines

/-!
Generated files declare nothing. The texts that a file takes over from its class, or from the
properties that it binds, are `Copyable` where they are plain. Then the file of a class, read as a
source file, lists its factory in the hierarchy and contributes nothing else (`idle_planned`), and
the file of bound properties contributes nothing at all (`idle_bindings`).

Most lines of a file are plain texts again. In the others a name stands where it is no part of a
class head even if it is one of the words of such heads, as in `fun HasComponents.class(`.
-/

namespace ComponentWiring

open Text Source

/-- A class whose texts can be copied. -/
structure Declaration.Copyable (d : Declaration) : Prop where
  name : IsName d.name.toList
  nameWords : FreeOf classWords d.name.toList
  package : ∀ c ∈ d.package.toList, isDottedChar c = true
  packageWords : FreeOf classWords d.package.toList
  parameters : ∀ p ∈ d.parameters, p.Copyable
  stars : ∀ star ∈ d.starImports, ∀ c ∈ star.toList, isDottedChar c = true

/-- A class at the head of whose file there are only dotted names. -/
structure Declaration.HasDottedNames (d : Declaration) : Prop where
  package : ∀ c ∈ d.package.toList, isDottedChar c = true
  packageWords : FreeOf classWords d.package.toList
  types : ∀ p ∈ d.parameters, ∀ name ∈ p.type.typeNames, ∀ c ∈ name.toList, isDottedChar c = true
  stars : ∀ star ∈ d.starImports, ∀ c ∈ star.toList, isDottedChar c = true

theorem Declaration.Copyable.dotted {d : Declaration} (h : d.Copyable) : d.HasDottedNames :=
  ⟨h.package, h.packageWords, fun p hp => (h.parameters p hp).type.names, h.stars⟩

namespace FactoryFile

variable {d : Declaration} {exportable viaFactory : Bool} {mode : Mode}

theorem importedName_addedNames {name : String} (h : name ∈ addedNames exportable viaFactory mode) :
    ImportedName name := by
  have hall : ∀ name ∈ addedNames exportable viaFactory mode,
      (name.toList.all isDottedChar && name.toList.contains '.') = true := by
    cases exportable <;> cases viaFactory <;> cases mode <;> decide
  exact importedName_of_closed (hall name h)

theorem importedName_of_mem_importNames (h : d.HasDottedNames) {name : String}
    (hname : name ∈ importNames d exportable viaFactory mode) : ImportedName name := by
  rcases mem_importNames_iff.mp hname with
    ⟨himportable, p, hp, hname⟩ | ⟨star, hstar, -, rfl⟩ | hname
  · refine importedName_of_typeNames (h.types p hp) ?_
    rw [TypeExpr.importNames_eq_filter]
    exact List.mem_filter.mpr ⟨hname, himportable⟩
  · exact .star (h.stars star hstar)
  · exact importedName_addedNames hname

end FactoryFile

/-! ## The file of a class -/

namespace FactoryFile

variable {d : Declaration} {exportable viaFactory : Bool} {mode : Mode} {policy : Policy}

/-! ### Names that may be words of class heads -/

theorem isSolid_of_mem_lowerChar {first c : Char} (h : isNameStart first = true)
    (hc : c ∈ lowerChar first) : isSolid c = true := by
  have hall : (List.range 128).all (fun n =>
      !isNameStart (Char.ofNat n) || (lowerChar (Char.ofNat n)).all isSolid) = true := by
    decide +kernel
  have hascii : first.toNat < 128 := by
    simp only [isNameStart, isAsciiLetter, Bool.or_eq_true, Bool.and_eq_true, decide_eq_true_eq,
      beq_iff_eq, Char.le_def, UInt32.le_iff_toNat_le] at h
    rcases h with (h | h) | rfl
    · exact Nat.lt_of_le_of_lt h.2 (by decide)
    · exact Nat.lt_of_le_of_lt h.2 (by decide)
    · decide
  have hfirst := List.all_eq_true.mp hall _ (List.mem_range.mpr hascii)
  rw [Char.ofNat_toNat, h] at hfirst
  exact List.all_eq_true.mp hfirst c hc

theorem isSolid_of_mem_builderName (h : IsName d.name.toList) {c : Char}
    (hc : c ∈ d.builderName.toList) : isSolid c = true := by
  unfold Declaration.builderName at hc
  split at hc
  · cases hc
  · next first rest heq =>
    rw [heq] at h
    rw [String.toList_ofList] at hc
    rcases List.mem_append.mp hc with hc | hc
    · obtain ⟨first', hfirst, hstart⟩ := h.1
      cases hfirst
      exact isSolid_of_mem_lowerChar hstart hc
    · exact isSolid_of_isWordChar (h.2 c (List.mem_cons_of_mem first hc))

/-- The name of the builder function stands between a dot and a parenthesis. -/
theorem inertLine_builderHead (h : IsName d.name.toList) :
    InertLine ("fun HasComponents." ++ d.builderName ++ "(") := by
  have hsolid : ∀ c ∈ "HasComponents.".toList ++ d.builderName.toList, isSolid c = true := by
    refine List.forall_mem_append.mpr ⟨List.all_eq_true.mp (by decide), fun c hc => ?_⟩
    exact isSolid_of_mem_builderName h hc
  have hname := Inert.solid_append hsolid (c := '(') (by decide) (by decide)
    (Plain.nil.cons (c := '\n') (by decide)).inert
  have hline : Inert ("fun ".toList ++ _) := inert_behind (by decide) hname
  simpa [InertLine] using hline

theorem exists_fetch_eq (mode : Mode) (d : Declaration) : ∃ opening closing : String,
    mode.fetch d.factoryName = opening ++ d.name ++ "Factory::class.java)" ++ closing ∧
      (∀ c ∈ opening.toList, isSolid c = true) ∧ Plain closing.toList := by
  cases mode with
  | quarkus =>
    refine ⟨"container.instance(", ".get()", ?_, List.all_eq_true.mp (by decide), by decide⟩
    apply String.toList_injective
    simp [Mode.fetch, Mode.handle, Mode.fetchParts, Declaration.factoryName]
  | spring =>
    refine ⟨"context.getBean(", "", ?_, List.all_eq_true.mp (by decide), by decide⟩
    apply String.toList_injective
    simp [Mode.fetch, Mode.handle, Mode.fetchParts, Declaration.factoryName]

/-- The name of the factory stands in front of `::class`. -/
theorem inertLine_fetch (h : IsName d.name.toList) :
    InertLine ("    " ++ ("val factory = " ++ mode.fetch d.factoryName)) := by
  obtain ⟨opening, closing, heq, hopening, hclosing⟩ := exists_fetch_eq mode d
  have hsolid : ∀ c ∈ opening.toList ++ (d.name.toList ++ "Factory::class.java".toList),
      isSolid c = true := by
    refine List.forall_mem_append.mpr ⟨hopening, List.forall_mem_append.mpr ⟨fun c hc => ?_, ?_⟩⟩
    · exact isSolid_of_isWordChar (h.2 c hc)
    · exact List.all_eq_true.mp (by decide)
  have hcall := Inert.solid_append hsolid (c := ')') (by decide) (by decide)
    (hclosing.concat (c := '\n') (by decide)).inert
  have hline : Inert ("    val factory = ".toList ++ _) := inert_behind (by decide) hcall
  rw [heq]
  simpa [InertLine] using hline

theorem not_sign_of_mem_parameters (hnamed : WellNamed d) {p : Parameter}
    (hp : p ∈ d.parameters) : '@' ∉ p.name.toList :=
  not_mem_of_isIdentifier (hnamed.parameters p hp) (by decide) (by decide)

section Lines

variable (h : d.Copyable) (hnamed : WellNamed d)

include h hnamed

theorem plain_name : Plain d.name.toList :=
  .of_freeOf h.nameWords (not_mem_of_isIdentifier hnamed.name (by decide) (by decide))

/-- A call that passes parameters of the class. -/
theorem plain_call {callee : String} {ps : List Parameter} (hcallee : Plain callee.toList)
    (hps : ps ⊆ d.parameters) : Plain (callee ++ "(" ++ argumentText ps ++ ")").toList := by
  have harguments : Plain (argumentText ps).toList := plain_argumentText fun p hp =>
    ⟨(h.parameters p (hps hp)).name, not_sign_of_mem_parameters hnamed (hps hp)⟩
  simpa using hcallee.append_cons (c := '(') (by decide)
    (harguments.concat (c := ')') (by decide))

/-- The class in front of the type of the block that is run on it. -/
theorem plain_block : Plain ("block: " ++ d.name ++ ".() -> Unit = \x7b\x7d").toList := by
  have hname := plain_name h hnamed
  have hblock : Plain (d.name.toList ++ '.' :: "() -> Unit = \x7b\x7d".toList) :=
    -- A dot can belong to an annotation, but there is none.
    .of_freeOf ((freeOf_append_cons (by decide)).mpr ⟨hname.words, by decide⟩)
      (by simpa using not_mem_of_isIdentifier hnamed.name (by decide) (by decide))
  have hline : Plain ("block: ".toList ++ _) := plain_behind (by decide) hblock
  simpa using hline

/-- No line below the name of the factory declares anything. -/
theorem CodeLine.inertLine {line : String} (hline : CodeLine d mode line) : InertLine line := by
  cases hline with
  | closed hmem =>
    have hall : ∀ line ∈ closedLines, Plain line.toList := by decide
    exact .of_plain (hall line hmem)
  | handle =>
    refine .of_plain ?_
    cases mode <;> decide
  | @field p hp comma hcomma =>
    have hmem := (List.mem_filter.mp hp).1
    have hfield : Plain ("private val ".toList ++ p.signature.toList) := plain_behind (by decide)
      ((h.parameters p hmem).plain_signature (not_sign_of_mem_parameters hnamed hmem))
    have hend := plain_before hfield (plain_of_mem_commas hcomma)
    refine .of_plain ?_
    rw [String.toList_append, String.toList_append, String.toList_append]
    exact plain_behind (by decide) hend
  | @parameter p hp margin comma hmargin hcomma =>
    have hmem := (List.mem_filter.mp hp).1
    have hparameter :=
      (h.parameters p hmem).plain_line (not_sign_of_mem_parameters hnamed hmem)
    have hall : ∀ margin ∈ ["    ", "        "], Plain margin.toList ∧
        margin.toList.getLast?.all precedesHead = true := by decide
    refine .of_plain ?_
    rw [String.toList_append, String.toList_append]
    exact plain_behind (hall margin hmargin) (plain_before hparameter (plain_of_mem_commas hcomma))
  | block =>
    refine .of_plain ?_
    rw [String.toList_append]
    exact plain_behind (by decide) (plain_block h hnamed)
  | @returns front hfront =>
    have hall : ∀ front ∈ returnFronts, Plain front.toList ∧
        front.toList.getLast?.all precedesHead = true := by decide
    refine .of_plain ?_
    rw [String.toList_append, String.toList_append]
    exact plain_before (plain_behind (hall front hfront) (plain_name h hnamed)) (by decide)
  | @call front callee hmem ps hps =>
    have hall : (Plain front.toList ∧ front.toList.getLast?.all precedesHead = true) ∧
        Plain callee.toList := by
      simp only [callFronts, List.mem_cons, Prod.mk.injEq, List.not_mem_nil, or_false] at hmem
      rcases hmem with ⟨rfl, rfl⟩ | ⟨rfl, rfl⟩ | ⟨rfl, rfl⟩
      · exact ⟨by decide, plain_name h hnamed⟩
      · exact ⟨by decide, by decide⟩
      · exact ⟨by decide, plain_name h hnamed⟩
    refine .of_plain ?_
    rw [String.toList_append]
    exact plain_behind hall.1 (plain_call h hnamed hall.2 hps)
  | builder => exact inertLine_builderHead h.name
  | fetch => exact inertLine_fetch h.name

end Lines

theorem preambleLine_annotation {line : String} (h : line ∈ mode.factoryAnnotations) :
    PreambleLine line := by
  have hall : ∀ line ∈ mode.factoryAnnotations, '/' ∉ line.toList ∧
      line.toList.all (fun c => !isQuote c) = true ∧ Plain line.toList ∧
      MarkFree classMarker line.toList := by
    cases mode <;> decide
  obtain ⟨hslash, hquote, hplain, hunmarked⟩ := hall line h
  exact ⟨.of_not_mem hslash (by simpa using hquote), .of_plain hplain, hunmarked⟩

theorem preambleLine_of_mem_frontLines (h : d.HasDottedNames) {line : String}
    (hline : line ∈ frontLines d exportable mode viaFactory) : PreambleLine line := by
  simp only [frontLines, List.mem_append, List.mem_singleton, or_assoc] at hline
  rcases hline with hpackage | himport | rfl
  · exact preambleLine_package h.package h.packageWords hpackage
  · exact preambleLine_of_mem_lines (fun name => importedName_of_mem_importNames h) himport
  · exact .of_chars (by simp) (.of_plain (by decide))

theorem isName_factoryName (h : IsName d.name.toList) : IsName d.factoryName.toList := by
  obtain ⟨⟨first, hfirst, hstart⟩, hword⟩ := h
  rw [Declaration.factoryName, String.toList_append]
  refine ⟨⟨first, by simp [Option.mem_def.mp hfirst], hstart⟩, ?_⟩
  exact List.forall_mem_append.mpr ⟨hword, List.all_eq_true.mp (by decide)⟩

theorem factoryName_not_mem_classWords : d.factoryName ∉ classWords := by
  have hlast : ∀ word ∈ classWords, word.toList.getLast? ≠ some 'y' := by decide
  exact fun h => hlast _ h (by simp [Declaration.factoryName])

/-- Below the name of the factory nothing opens. -/
theorem inert_behind_name (h : d.Copyable) (hnamed : WellNamed d) {lines : List String}
    (hlines : ∀ line ∈ lines, CodeLine d mode line) :
    Inert ((factoryPart d mode).headEnd.toList ++ '\n' ::
      layout ((factoryPart d mode).memberLines d.name ++ lines)) := by
  have hend : Plain ((factoryPart d mode).headEnd.toList ++ ['\n']) := by
    unfold FactoryPart.headEnd
    split <;> decide
  refine hend.inert.append_cons (by decide) (inert_layout fun line hline => ?_)
  have hcode : CodeLine d mode line :=
    (List.mem_append.mp hline).elim codeLine_of_mem_memberLines (hlines line)
  exact hcode.inertLine h hnamed

/-- The file of a class lists the factory, if there is one, and contributes nothing else. -/
theorem idle_planned (h : d.Copyable) (hnamed : WellNamed d) (exportable : Bool) (mode : Mode)
    (policy : Policy) (path : String) (fallback : Convention) :
    (FileFindings.read path (layout (planned d exportable mode policy).lines) fallback).Idle
      [d.factoryName] := by
  have hname := isName_factoryName h.name
  have hbuilder {viaFactory : Bool} : ∀ line ∈ builderLines d exportable mode viaFactory,
      CodeLine d mode line := fun line => codeLine_of_mem_builderLines
  rw [lines_planned]
  cases hasFactory d policy with
  | true =>
    have hfront : Preamble (layout (frontLines d exportable mode true ++
        mode.factoryAnnotations)) := preamble_layout fun line hline =>
      (List.mem_append.mp hline).elim (preambleLine_of_mem_frontLines h.dotted) preambleLine_annotation
    have hhead : ∀ c ∈ ((factoryPart d mode).headEnd.toList ++ '\n' :: layout
        ((factoryPart d mode).memberLines d.name ++ builderLines d exportable mode true)).head?,
        c = ' ' ∨ c = '(' := by
      unfold FactoryPart.headEnd
      split <;> simp
    have hidle := idle_of_class hfront hname (by simpa using factoryName_not_mem_classWords)
      (inert_behind_name h hnamed hbuilder) hhead path fallback
    simpa [FactoryPart.layout_lines, factoryPart] using hidle
  | false =>
    refine (idle_of_inert (inert_layout fun line hline => ?_) path fallback).mono (by simp)
    simp only [Bool.false_eq_true, if_false, List.append_nil, List.mem_append] at hline
    exact hline.elim (fun hline => (preambleLine_of_mem_frontLines h.dotted hline).inert) fun hline =>
      CodeLine.inertLine h hnamed (hbuilder line hline)

end FactoryFile

/-! ## The file of bound properties -/

/-- A property whose texts can be copied. -/
structure Property.Copyable (p : Property) : Prop where
  name : IsName p.name.toList
  package : ∀ c ∈ p.package.toList, isDottedChar c = true
  packageWords : FreeOf classWords p.package.toList
  type : p.type.Copyable
  stars : ∀ star ∈ p.starImports, ∀ c ∈ star.toList, isDottedChar c = true

namespace BindingFile

variable {p : Property} {owner : String} {kind : SignalKind} {element : TypeExpr}

theorem plain_signalType (h : element.Copyable) :
    Plain (function owner p kind element).signalType.toList := by
  have hkind : Plain (TypeExpr.lastPart kind.counterpartName).toList := by
    cases kind <;> decide
  simpa [function] using hkind.append_cons (c := '<') (by decide)
    (h.render.concat (c := '>') (by decide))

section Lines

variable (howner : IsName owner.toList) (hname : IsName p.name.toList)

include hname

theorem inertLine_comment :
    InertLine (" * Binds the given [signal] to the [" ++ p.name ++ "] property.") := by
  have hsolid : ∀ c ∈ '[' :: p.name.toList, isSolid c = true :=
    List.forall_mem_cons.mpr ⟨by decide, fun c hc => isSolid_of_isWordChar (hname.2 c hc)⟩
  have hrest : Plain (" property.".toList ++ ['\n']) := by decide
  have hline : Inert (" * Binds the given [signal] to the ".toList ++ _) :=
    inert_behind (by decide)
      (Inert.solid_append hsolid (c := ']') (by decide) (by decide) hrest.inert)
  simpa [InertLine] using hline

theorem inertLine_statement : InertLine ("    this." ++ p.name ++ ".bindTo(signal)") := by
  have hsolid : ∀ c ∈ "this.".toList ++ (p.name.toList ++ ".bindTo".toList), isSolid c = true :=
    List.forall_mem_append.mpr ⟨List.all_eq_true.mp (by decide), List.forall_mem_append.mpr
      ⟨fun c hc => isSolid_of_isWordChar (hname.2 c hc), List.all_eq_true.mp (by decide)⟩⟩
  have hrest : Plain ("signal)".toList ++ ['\n']) := by decide
  have hline : Inert ("    ".toList ++ _) := inert_behind (by decide)
    (Inert.solid_append hsolid (c := '(') (by decide) (by decide) hrest.inert)
  simpa [InertLine] using hline

include howner

theorem inertLine_functionHead (h : element.Copyable) :
    InertLine ("fun " ++ owner ++ "." ++ p.name ++ "(signal: " ++
      (function owner p kind element).signalType ++ ") \x7b") := by
  have hsolid : ∀ c ∈ owner.toList ++ '.' :: p.name.toList, isSolid c = true :=
    List.forall_mem_append.mpr ⟨fun c hc => isSolid_of_isWordChar (howner.2 c hc),
      List.forall_mem_cons.mpr ⟨by decide, fun c hc => isSolid_of_isWordChar (hname.2 c hc)⟩⟩
  have hrest : Plain ("signal: ".toList ++
      ((function owner p kind element).signalType.toList ++ ") \x7b\n".toList)) :=
    plain_behind (by decide) (plain_before (plain_signalType h) (by decide))
  have hline : Inert ("fun ".toList ++ _) := inert_behind (by decide)
    (Inert.solid_append hsolid (c := '(') (by decide) (by decide) hrest.inert)
  simpa [InertLine] using hline

/-- Wherever the names of the property and its class stand, no class opens behind them. -/
theorem inertLine_of_mem_function (h : element.Copyable) {line : String}
    (hline : line ∈ (function owner p kind element).lines) : InertLine line := by
  simp only [BindingFunction.lines, List.mem_cons, List.not_mem_nil, or_false] at hline
  rcases hline with rfl | rfl | rfl | rfl | rfl | rfl | rfl | rfl | rfl
  · exact .of_plain (by decide)
  · exact .of_plain (by decide)
  · exact inertLine_comment hname
  · exact .of_plain (by decide)
  · exact .of_plain (by decide)
  · exact .of_plain (by decide)
  · exact inertLine_functionHead howner hname h
  · exact inertLine_statement hname
  · exact .of_plain (by decide)

end Lines

theorem importedName_counterpartName (kind : SignalKind) : ImportedName kind.counterpartName :=
  importedName_of_closed (by cases kind <;> decide)

theorem mem_accepted_iff {properties : List Property} :
    (p, kind, element) ∈ accepted properties ↔
      p ∈ properties ∧ p.bindable = .ok (kind, element) := by
  simp only [accepted, List.mem_filterMap, Option.map_eq_some_iff]
  constructor
  · rintro ⟨q, hq, found, hfound, heq⟩
    cases heq
    cases hbindable : p.bindable with
    | error fault => simp [hbindable, Except.toOption] at hfound
    | ok found => exact ⟨hq, by simpa [hbindable, Except.toOption] using hfound⟩
  · rintro ⟨hp, hbindable⟩
    exact ⟨p, hp, (kind, element), by rw [hbindable]; rfl, rfl⟩

/-- A property that can be bound has a type with one argument. -/
theorem type_of_bindable (h : p.bindable = .ok (kind, element)) :
    p.type.isOpaque = false ∧ p.type.arguments = [element] := by
  unfold Property.bindable at h
  split at h
  · cases h
  · split at h
    · cases h
    · next found hkind =>
      refine ⟨?_, ?_⟩
      · unfold Property.signalKind? SignalKind.of? at hkind
        simpa using (Option.ite_none_left_eq_some.mp hkind).1
      · split at h
        · next harguments =>
          cases h
          exact harguments
        · cases h
        · cases h

/-- The file of bound properties contributes nothing. -/
theorem idle_bindings {properties : List Property} {file : BindingFile}
    (hplan : plan? owner properties = some file) (howner : IsName owner.toList)
    (h : ∀ p ∈ properties, p.Copyable) (path : String) (fallback : Convention) :
    (FileFindings.read path (layout file.lines) fallback).Idle [] := by
  have helement {p : Property} {kind : SignalKind} {element : TypeExpr}
      (hmem : (p, kind, element) ∈ accepted properties) : p ∈ properties ∧ element.Copyable := by
    obtain ⟨hp, hbindable⟩ := mem_accepted_iff.mp hmem
    obtain ⟨hnamed, harguments⟩ := type_of_bindable hbindable
    exact ⟨hp, (h p hp).type.element hnamed harguments⟩
  unfold plan? at hplan
  obtain ⟨hsome, hplan⟩ := Option.ite_none_left_eq_some.mp hplan
  cases hplan
  refine idle_of_inert (inert_layout fun line hline => ?_) path fallback
  simp only [lines, List.mem_append, or_assoc] at hline
  rcases hline with hpackage | himport | hline
  · cases properties with
    | nil => simp [accepted] at hsome
    | cons p rest =>
      have hp := h p List.mem_cons_self
      exact (preambleLine_package hp.package hp.packageWords hpackage).inert
  · refine (preambleLine_of_mem_lines (fun name hname => ?_) himport).inert
    obtain ⟨⟨p, kind, element⟩, hmem, hname⟩ := List.mem_flatMap.mp (Keyed.mem_sortedNames.mp hname)
    obtain ⟨hp, helement⟩ := helement hmem
    rcases List.mem_cons.mp hname with rfl | hname
    · exact importedName_counterpartName kind
    · rcases List.mem_append.mp hname with hname | hname
      · exact importedName_of_typeNames helement.names hname
      · exact importedName_starName (h p hp).stars hname
  · obtain ⟨f, hf, hline⟩ := List.mem_flatMap.mp hline
    obtain ⟨⟨p, kind, element⟩, hmem, rfl⟩ := List.mem_map.mp hf
    obtain ⟨hp, helement⟩ := helement hmem
    exact inertLine_of_mem_function howner (h p hp).name helement hline

end BindingFile

end ComponentWiring

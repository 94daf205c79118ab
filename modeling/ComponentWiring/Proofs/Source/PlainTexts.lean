import ComponentWiring.Proofs.Source.ImportTable
import ComponentWiring.Proofs.Source.Openings

/-!
Texts that declare nothing wherever they are copied to. A plain text has neither the words of class
heads nor the marker of properties, and it keeps both properties where it is cut or put together at
characters that belong to no name and no annotation (`plain_append_cons`, `Plain.within`). The type
that is read from a plain text is printed as a plain text again (`plain_render_readType`).
-/

namespace ComponentWiring.Source

open Text TypeExpr

/-- A text without the words of class heads and without the marker of properties. -/
structure Plain (cs : List Char) : Prop where
  words : FreeOf classWords cs
  marker : MarkFree propertyMarker cs

instance (cs : List Char) : Decidable (Plain cs) :=
  decidable_of_iff (FreeOf classWords cs ∧ MarkFree propertyMarker cs)
    ⟨fun h => ⟨h.1, h.2⟩, fun h => ⟨h.words, h.marker⟩⟩

section Plain

variable {as bs cs : List Char} {c : Char}

theorem plain_append_cons (hc : precedesHead c = true) :
    Plain (as ++ c :: bs) ↔ Plain as ∧ Plain bs := by
  have hword := isWordChar_of_precedesHead hc
  constructor
  · intro h
    obtain ⟨has, hbs⟩ := (freeOf_append_cons hword).mp h.words
    obtain ⟨has', hbs'⟩ := (markFree_append_cons hc).mp h.marker
    exact ⟨⟨has, has'⟩, hbs, hbs'⟩
  · rintro ⟨has, hbs⟩
    exact ⟨(freeOf_append_cons hword).mpr ⟨has.words, hbs.words⟩,
      (markFree_append_cons hc).mpr ⟨has.marker, hbs.marker⟩⟩

namespace Plain

theorem nil : Plain [] := by decide

theorem append_cons (has : Plain as) (hc : precedesHead c = true) (hbs : Plain bs) :
    Plain (as ++ c :: bs) :=
  (plain_append_cons hc).mpr ⟨has, hbs⟩

theorem concat (h : Plain cs) (hc : precedesHead c = true) : Plain (cs ++ [c]) :=
  h.append_cons hc nil

theorem cons (hc : precedesHead c = true) (h : Plain cs) : Plain (c :: cs) :=
  nil.append_cons hc h

theorem of_freeOf (h : FreeOf classWords cs) (hsign : '@' ∉ cs) : Plain cs :=
  ⟨h, markFree_of_not_mem hsign⟩

theorem within {part : List Char} (h : Plain cs) (hpart : Within part cs) : Plain part :=
  ⟨hpart.freeOf h.words, h.marker.within hpart⟩

theorem headFree (h : Plain cs) : HeadFree cs :=
  .of_freeOf h.words

theorem intercalate {pieces : List (List Char)} (h : ∀ piece ∈ pieces, Plain piece) :
    Plain (", ".toList.intercalate pieces) := by
  induction pieces with
  | nil => exact nil
  | cons piece pieces ih =>
    obtain ⟨hpiece, hpieces⟩ := List.forall_mem_cons.mp h
    cases pieces with
    | nil => rwa [List.intercalate_singleton]
    | cons next pieces =>
      rw [List.intercalate_cons_cons, List.append_assoc]
      exact hpiece.append_cons (by decide) ((ih hpieces).cons (by decide))

end Plain

end Plain

/-! ## Names -/

theorem not_sign_of_dotted {name : List Char} (h : ∀ c ∈ name, isDottedChar c = true) :
    '@' ∉ name :=
  fun hmem => absurd (h '@' hmem) (by decide)

theorem afterLast_suffix (sep : Char) (cs : List Char) : afterLast sep cs <:+ cs := by
  unfold afterLast
  split
  · next before after hsplit =>
    rw [splitLast_eq_some hsplit]
    exact ⟨before ++ [sep], by simp⟩
  · exact List.suffix_refl cs

/-- The words of the last part are words of the name. -/
theorem freeOf_lastPart {words : List String} {name : String} (h : FreeOf words name.toList) :
    FreeOf words (lastPart name).toList := by
  rw [lastPart, String.toList_ofList, afterLast]
  split
  · next hsplit =>
    rw [splitLast_eq_some hsplit] at h
    exact ((freeOf_append_cons (by decide)).mp h).2
  · exact h

theorem isDottedChar_of_isNamePart {c : Char} (h : isNamePart c = true) :
    isDottedChar c = true := by
  simp only [isNamePart, isDottedChar, Bool.or_eq_true] at h ⊢
  exact h.imp_left isWordChar_of_isAsciiWordChar

/-! ## Types -/

variable {imports : Imports} {cs : List Char}

/-- Whatever is written, the names in a type are dotted names. -/
theorem isDottedChar_of_mem_typeNames (himports : imports.Dotted) {name : String}
    (h : name ∈ (readType imports [] cs).typeNames) : ∀ c ∈ name.toList, isDottedChar c = true := by
  obtain ⟨written, hwritten, rfl⟩ := exists_written_of_mem_typeNames h
  refine himports.resolve fun c hc => isDottedChar_of_isNamePart ?_
  rw [String.toList_ofList] at hc
  exact isNamePart_of_mem_writtenNames hwritten c hc

theorem isDottedChar_of_mem_typeHead (h : isDottedName (typeHead cs) = true) :
    ∀ c ∈ typeHead cs, isDottedChar c = true := fun c hc =>
  isDottedChar_of_isNamePart (isNamePart_of_dottedName? (isDottedName_iff.mp h) c hc)

/-- The simple name of a type is plain if the written one and all imported ones are. -/
theorem plain_lastPart_resolve (hdotted : imports.Dotted)
    (himports : ∀ name qualified, imports.imported? name = some qualified → Plain qualified.toList)
    (hhead : isDottedName (typeHead cs) = true) (h : Plain cs) :
    Plain (lastPart (imports.resolve (String.ofList (typeHead cs)))).toList := by
  have hchars : ∀ c ∈ (imports.resolve (String.ofList (typeHead cs))).toList,
      isDottedChar c = true :=
    hdotted.resolve (by simpa using isDottedChar_of_mem_typeHead hhead)
  refine .of_freeOf ?_ (not_sign_of_dotted fun c hc => hchars c ?_)
  · rcases imports.lastPart_resolve_cases (String.ofList (typeHead cs)) with
      heq | ⟨name, qualified, himported, heq⟩
    · rw [heq]
      refine freeOf_lastPart ?_
      rw [String.toList_ofList]
      exact (Within.typeHead cs).freeOf h.words
    · rw [heq]
      exact freeOf_lastPart (himports _ _ himported).words
  · rw [lastPart, String.toList_ofList] at hc
    exact (afterLast_suffix '.' _).subset hc

/-- A printed type holds characters of the written one, of names, and of the lists and marks that it
is put together with. -/
theorem mem_render_readType (himports : imports.Dotted) {c : Char}
    (h : c ∈ (readType imports [] cs).render.toList) :
    c ∈ cs ∨ isDottedChar c = true ∨ c ∈ ", <>?".toList := by
  induction cs using typeText_induction with
  | verbatim cs hhead =>
    rw [readType_of_verbatim hhead, opaqueType, render, if_pos rfl, String.toList_ofList] at h
    exact .inl ((Within.trim cs).subset h)
  | named cs hhead ih =>
    rw [readType_of_named hhead, toList_render rfl, List.mem_append, List.mem_append] at h
    rcases h with (h | h) | h
    · rw [lastPart, String.toList_ofList] at h
      refine .inr (.inl (himports.resolve (fun d hd => ?_) c ((afterLast_suffix '.' _).subset h)))
      rw [String.toList_ofList] at hd
      exact isDottedChar_of_mem_typeHead hhead d hd
    · unfold argumentText at h
      split_ifs at h
      · cases h
      · rw [List.mem_cons, List.mem_append, List.mem_singleton] at h
        rcases h with rfl | h | rfl
        · exact .inr (.inr (by decide))
        · rcases mem_of_mem_intercalate h with h | ⟨_, htext, h⟩
          · exact .inr (.inr (List.mem_of_mem_take (i := 2) h))
          · obtain ⟨type, htype, rfl⟩ := List.mem_map.mp htext
            obtain ⟨piece, hpiece, rfl⟩ := List.mem_map.mp htype
            exact (ih piece hpiece h).imp_left fun h => (Within.of_mem_typePieces hpiece).subset h
        · exact .inr (.inr (by decide))
    · cases hnull : (splitNullable (trim cs)).2 with
      | false => simp [hnull, nullMark] at h
      | true =>
        simp only [hnull, nullMark, if_true, List.mem_singleton] at h
        exact .inr (.inr (by rw [h]; decide))

/-- A plain text is read as a type that is printed as a plain text. -/
theorem plain_render_readType (hdotted : imports.Dotted)
    (himports : ∀ name qualified, imports.imported? name = some qualified → Plain qualified.toList)
    (h : Plain cs) : Plain (readType imports [] cs).render.toList := by
  induction cs using typeText_induction with
  | verbatim cs hhead =>
    rw [readType_of_verbatim hhead, opaqueType, render, if_pos rfl, String.toList_ofList]
    exact h.within (.trim cs)
  | named cs hhead ih =>
    have hname := plain_lastPart_resolve hdotted himports hhead h
    have harguments : ∀ piece ∈ typePieces cs, Plain (readType imports [] piece).render.toList :=
      fun piece hpiece => ih piece hpiece (h.within (.of_mem_typePieces hpiece))
    have hbody : Plain ((lastPart (imports.resolve (String.ofList (typeHead cs)))).toList ++
        argumentText ((typePieces cs).map (readType imports []))) := by
      unfold argumentText
      split
      · rwa [List.append_nil]
      · refine hname.append_cons (by decide) (.concat (.intercalate ?_) (by decide))
        simpa using harguments
    rw [readType_of_named hhead, toList_render rfl]
    cases (splitNullable (trim cs)).2 with
    | false => rwa [nullMark, if_neg Bool.false_ne_true, List.append_nil]
    | true => exact hbody.concat (by decide)

end ComponentWiring.Source

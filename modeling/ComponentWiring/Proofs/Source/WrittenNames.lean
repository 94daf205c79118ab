import ComponentWiring.Proofs.Source.TypeReading
import ComponentWiring.Proofs.Text.Occurrences

/-!
The names in a written type. A type is read in one of two ways: as a name with type arguments, which
are read in the same way, or as a text that is kept as it is, in which only the names are looked at.
`writtenNames` lists the names of a text, and since a name ends where no character of a name
follows, the names of a type are those of its pieces (`writtenNames_append`,
`writtenNames_eq_of_named`).

So a type has no names but the written ones, resolved (`exists_written_of_mem_typeNames`), and it
has every written name whose first part is imported (`mem_typeNames_of_written`), whichever way it
is read and however deep the name stands.
-/

namespace ComponentWiring

/-! ## The names in a type reference -/

namespace TypeExpr

mutual

/-- The names of the references in a type that are not kept as they are written, at any depth. -/
def typeNames : TypeExpr → List String
  | ⟨name, arguments, _, isOpaque⟩ => (if isOpaque then [] else [name]) ++ typeNamesOf arguments

/-- The names in the types of a list. -/
def typeNamesOf : List TypeExpr → List String
  | [] => []
  | type :: rest => typeNames type ++ typeNamesOf rest

end

theorem typeNamesOf_eq_flatMap (types : List TypeExpr) :
    typeNamesOf types = types.flatMap typeNames := by
  induction types with
  | nil => rfl
  | cons type rest ih => simp [typeNamesOf, ih]

mutual

/-- Of the names in a type those are imported that have to be. -/
theorem importNames_eq_filter : ∀ type : TypeExpr,
    type.importNames = type.typeNames.filter isImportable
  | ⟨name, arguments, _, isOpaque⟩ => by
    rw [importNames, typeNames, List.filter_append, importNamesOf_eq_filter arguments]
    cases isOpaque with
    | true => rfl
    | false => cases h : isImportable name <;> simp [h]

theorem importNamesOf_eq_filter : ∀ types : List TypeExpr,
    importNamesOf types = (typeNamesOf types).filter isImportable
  | [] => rfl
  | type :: rest => by
    rw [importNamesOf, typeNamesOf, List.filter_append, importNames_eq_filter type,
      importNamesOf_eq_filter rest]

end

end TypeExpr

namespace Source

open Text TypeExpr

/-! ## Where a name ends -/

/-- A character of a dotted ASCII name. -/
def isNamePart (c : Char) : Bool :=
  isAsciiWordChar c || c == '.'

/-- A text that continues no name in front of it. -/
structure EndsName (tail : List Char) : Prop where
  word : ∀ c ∈ tail.head?, isAsciiWordChar c = false
  dot : dotAndName? tail = none

theorem isNameStart_of_isAsciiWordChar {c : Char} (hc : isAsciiWordChar c = false) :
    isNameStart c = false := by
  simp only [isAsciiWordChar, isNameStart, Bool.or_eq_false_iff] at hc ⊢
  exact ⟨hc.1.1, hc.2⟩

theorem asciiName?_cons_eq_none {c : Char} (hc : isNameStart c = false) (cs : List Char) :
    asciiName? (c :: cs) = none := by
  rw [asciiName?, if_neg (by simp [hc])]

theorem asciiName?_of_stop {tail : List Char} (h : ∀ c ∈ tail.head?, isAsciiWordChar c = false) :
    asciiName? tail = none := by
  cases tail with
  | nil => rfl
  | cons c rest =>
    exact asciiName?_cons_eq_none (isNameStart_of_isAsciiWordChar (h c rfl)) rest

/-- A name is taken off the front of a text. -/
theorem asciiName?_eq_some {cs name left : List Char} (h : asciiName? cs = some (name, left)) :
    cs = name ++ left ∧ name ≠ [] := by
  cases cs with
  | nil => cases h
  | cons c rest =>
    rw [asciiName?] at h
    split at h
    · cases h
      simp
    · cases h

theorem dotAndName?_eq_some {cs name left : List Char} (h : dotAndName? cs = some (name, left)) :
    cs = name ++ left ∧ name ≠ [] := by
  unfold dotAndName? at h
  split at h
  · obtain ⟨⟨word, rest⟩, hword, he⟩ := Option.map_eq_some_iff.mp h
    cases he
    simp [(asciiName?_eq_some hword).1]
  · cases h

theorem length_lt_of_dotAndName? (cs : List Char) (r : List Char × List Char)
    (h : dotAndName? cs = some r) : r.2.length < cs.length := by
  obtain ⟨hcs, hne⟩ := dotAndName?_eq_some h
  have hpos := List.length_pos_of_ne_nil hne
  rw [hcs, List.length_append]
  omega

namespace EndsName

theorem cons {c : Char} (hc : isNamePart c = false) (rest : List Char) : EndsName (c :: rest) := by
  simp only [isNamePart, Bool.or_eq_false_iff, beq_eq_false_iff_ne] at hc
  refine ⟨by simpa using hc.1, ?_⟩
  unfold dotAndName?
  split
  · next heq => exact absurd (List.cons.inj heq).1 hc.2
  · rfl

variable {tail : List Char} (h : EndsName tail)

include h

theorem asciiName?_append (as : List Char) :
    asciiName? (as ++ tail) = (asciiName? as).map fun r => (r.1, r.2 ++ tail) := by
  cases as with
  | nil => exact asciiName?_of_stop h.word
  | cons a as =>
    rw [List.cons_append, asciiName?, asciiName?, takeWhile_append_of_stop h.word,
      dropWhile_append_of_stop h.word]
    split <;> rfl

theorem dotAndName?_append (as : List Char) :
    dotAndName? (as ++ tail) = (dotAndName? as).map fun r => (r.1, r.2 ++ tail) := by
  cases as with
  | nil => exact h.dot
  | cons a as =>
    by_cases ha : a = '.'
    · subst ha
      simp [dotAndName?, h.asciiName?_append, Function.comp_def]
    · simp [dotAndName?, ha]

theorem dottedName?_append (as : List Char) :
    dottedName? (as ++ tail) = (dottedName? as).map fun r => (r.1, r.2 ++ tail) := by
  unfold dottedName?
  rw [h.asciiName?_append]
  cases asciiName? as with
  | none => rfl
  | some r =>
    simp [readAll_append length_lt_of_dotAndName? h.dotAndName?_append]

end EndsName

/-- A dotted name is taken off the front of a text. -/
theorem dottedName?_eq_some {cs name left : List Char} (h : dottedName? cs = some (name, left)) :
    cs = name ++ left ∧ name ≠ [] := by
  have hread : ∀ fuel cs, (repeatReader dotAndName? fuel cs).1.flatten ++
      (repeatReader dotAndName? fuel cs).2 = cs := by
    intro fuel
    induction fuel with
    | zero => exact fun _ => rfl
    | succ fuel ih =>
      intro cs
      cases hstep : dotAndName? cs with
      | none => simp [repeatReader, hstep]
      | some r =>
        simp only [repeatReader, hstep, List.flatten_cons, List.append_assoc, ih]
        exact (dotAndName?_eq_some hstep).1.symm
  obtain ⟨⟨first, rest⟩, hfirst, hothers⟩ := Option.bind_eq_some_iff.mp h
  obtain ⟨rfl, hne⟩ := asciiName?_eq_some hfirst
  simp only [Option.pure_def, Option.some.injEq, Prod.mk.injEq] at hothers
  obtain ⟨rfl, rfl⟩ := hothers
  refine ⟨?_, by simp [hne]⟩
  rw [List.append_assoc, readAll, hread]

/-- A dotted name consists of words and dots. -/
theorem isNamePart_of_dottedName? {cs name left : List Char}
    (h : dottedName? cs = some (name, left)) : ∀ c ∈ name, isNamePart c = true := by
  have hword {cs name left : List Char} (h : asciiName? cs = some (name, left)) :
      ∀ c ∈ name, isNamePart c = true := by
    cases cs with
    | nil => cases h
    | cons d cs =>
      rw [asciiName?] at h
      split at h
      · next hstart =>
        cases h
        refine List.forall_mem_cons.mpr
          ⟨?_, fun c hc => by simp [isNamePart, List.mem_takeWhile_imp hc]⟩
        have hchar : isAsciiWordChar d = true := by
          cases hd : isAsciiWordChar d with
          | true => rfl
          | false => rw [isNameStart_of_isAsciiWordChar hd] at hstart; cases hstart
        simp [isNamePart, hchar]
      · cases h
  have hothers : ∀ fuel cs, ∀ part ∈ (repeatReader dotAndName? fuel cs).1,
      ∀ c ∈ part, isNamePart c = true := by
    intro fuel
    induction fuel with
    | zero => exact fun cs part hpart => by cases hpart
    | succ fuel ih =>
      intro cs part hpart
      cases hstep : dotAndName? cs with
      | none => simp [repeatReader, hstep] at hpart
      | some r =>
        simp only [repeatReader, hstep, List.mem_cons] at hpart
        rcases hpart with rfl | hpart
        · unfold dotAndName? at hstep
          split at hstep
          · obtain ⟨r', hname, rfl⟩ := Option.map_eq_some_iff.mp hstep
            exact List.forall_mem_cons.mpr ⟨rfl, hword hname⟩
          · cases hstep
        · exact ih _ _ hpart
  obtain ⟨⟨first, rest⟩, hfirst, h⟩ := Option.bind_eq_some_iff.mp h
  cases h
  intro c hc
  rcases List.mem_append.mp hc with hc | hc
  · exact hword hfirst c hc
  · obtain ⟨part, hpart, hc⟩ := List.mem_flatten.mp hc
    exact hothers _ _ part hpart c hc

theorem isDottedName_iff {cs : List Char} :
    isDottedName cs = true ↔ dottedName? cs = some (cs, []) := by
  unfold isDottedName
  constructor
  · intro h
    split at h
    · next name heq =>
      obtain ⟨hcs, -⟩ := dottedName?_eq_some heq
      rw [List.append_nil] at hcs
      rw [heq, hcs]
    · cases h
  · intro h
    rw [h]

/-! ## The names of a text -/

/-- The dotted names in a text, in order. -/
def writtenNames (cs : List Char) : List (List Char) :=
  (occurrences (fun _ => dottedName?) cs).map (·.value)

@[simp] theorem writtenNames_nil : writtenNames [] = [] := rfl

theorem isNamePart_of_mem_writtenNames {cs name : List Char} (h : name ∈ writtenNames cs) :
    ∀ c ∈ name, isNamePart c = true := by
  obtain ⟨found, hfound, rfl⟩ := List.mem_map.mp h
  obtain ⟨_, _, -, hread⟩ := exists_of_mem_occurrences hfound
  exact isNamePart_of_dottedName? hread

theorem writtenNames_append {tail : List Char} (h : EndsName tail) (as : List Char) :
    writtenNames (as ++ tail) = writtenNames as ++ writtenNames tail :=
  map_value_occurrences_append (fun c cs => h.dottedName?_append (c :: cs)) as

theorem dottedName?_cons_eq_none {c : Char} (hc : isNameStart c = false) (cs : List Char) :
    dottedName? (c :: cs) = none := by
  rw [dottedName?, asciiName?_cons_eq_none hc]
  rfl

/-- No name starts at a character that can start none. -/
theorem writtenNames_cons {c : Char} (hc : isNameStart c = false) (cs : List Char) :
    writtenNames (c :: cs) = writtenNames cs := by
  rw [writtenNames, occurrences, occurrencesFrom, dottedName?_cons_eq_none hc]
  exact map_value_occurrencesFrom ..

theorem isNameStart_of_not_isNamePart {c : Char} (hc : isNamePart c = false) :
    isNameStart c = false :=
  isNameStart_of_isAsciiWordChar (Bool.or_eq_false_iff.mp hc).1

/-- A character that belongs to no name separates names. -/
theorem writtenNames_append_cons {c : Char} (hc : isNamePart c = false) (as bs : List Char) :
    writtenNames (as ++ c :: bs) = writtenNames as ++ writtenNames bs := by
  rw [writtenNames_append (.cons hc bs), writtenNames_cons (isNameStart_of_not_isNamePart hc)]

theorem writtenNames_of_isDottedName {cs : List Char} (h : isDottedName cs = true) :
    writtenNames cs = [cs] := by
  have hread := isDottedName_iff.mp h
  have hwhole : occurrencesFrom (fun _ => dottedName?) 0 0 none (cs ++ []) = _ :=
    occurrencesFrom_of_some (dottedName?_eq_some hread).2 (by simpa using hread)
  rw [List.append_nil] at hwhole
  rw [writtenNames, occurrences, hwhole]
  rfl

/-- A name with nothing on either side that could belong to it is among the names of a text. -/
theorem mem_writtenNames {name before after : List Char} (hname : isDottedName name = true)
    (hbefore : ∀ c ∈ before.getLast?, isNamePart c = false) (hafter : EndsName after) :
    name ∈ writtenNames (before ++ name ++ after) := by
  have hhere : name ∈ writtenNames (name ++ after) := by
    rw [writtenNames_append hafter, writtenNames_of_isDottedName hname]
    exact List.mem_append_left _ List.mem_cons_self
  rcases List.eq_nil_or_concat before with rfl | ⟨front, c, rfl⟩
  · exact hhere
  · have hc : isNamePart c = false := hbefore c (by simp)
    rw [List.concat_eq_append, List.append_assoc, List.append_assoc, List.singleton_append,
      writtenNames_append_cons hc]
    exact List.mem_append_right _ hhere

/-! ## The names of a type -/

theorem isNamePart_of_isBlank {c : Char} (hc : isBlank c = true) : isNamePart c = false := by
  have hword : isAsciiWordChar c = false := by
    cases h : isAsciiWordChar c with
    | false => rfl
    | true =>
      have hblank := isBlank_of_isWordChar (isWordChar_of_isAsciiWordChar h)
      rw [hc] at hblank
      cases hblank
  have hdot : c ≠ '.' := by
    rintro rfl
    exact absurd hc (by decide)
  simp [isNamePart, hword, hdot]

theorem writtenNames_trimStart (cs : List Char) :
    writtenNames (trimStart cs) = writtenNames cs := by
  induction cs with
  | nil => rfl
  | cons c cs ih =>
    cases hc : isBlank c with
    | true =>
      rw [trimStart_cons_of_blank hc, ih,
        writtenNames_cons (isNameStart_of_not_isNamePart (isNamePart_of_isBlank hc))]
    | false => rw [trimStart_eq_self (by simpa using hc)]

theorem writtenNames_append_of_blank {blank : List Char} (h : isAllBlank blank = true)
    (cs : List Char) : writtenNames (cs ++ blank) = writtenNames cs := by
  induction blank generalizing cs with
  | nil => rw [List.append_nil]
  | cons c blank ih =>
    rw [isAllBlank_cons] at h
    rw [writtenNames_append_cons (isNamePart_of_isBlank h.1)]
    simpa using congrArg (writtenNames cs ++ ·) (ih h.2 [])

theorem writtenNames_trimEnd (cs : List Char) : writtenNames (trimEnd cs) = writtenNames cs := by
  obtain ⟨blank, hblank, hcs⟩ := exists_blank_of_trimEnd cs
  conv_rhs => rw [hcs]
  rw [writtenNames_append_of_blank hblank]

theorem writtenNames_trim (cs : List Char) : writtenNames (trim cs) = writtenNames cs := by
  rw [trim, writtenNames_trimEnd, writtenNames_trimStart]

theorem writtenNames_splitNullable (cs : List Char) :
    writtenNames (splitNullable cs).1 = writtenNames cs := by
  unfold splitNullable
  split
  · next hmark =>
    obtain ⟨front, rfl⟩ := List.getLast?_eq_some_iff.mp hmark
    dsimp only
    split
    · rfl
    · rw [List.dropLast_concat, writtenNames_trimEnd, writtenNames_append_cons rfl]
      simp
  · rfl

theorem writtenNames_splitArguments (cs : List Char) :
    writtenNames cs =
      writtenNames (splitArguments cs).1 ++ ((splitArguments cs).2.map writtenNames).getD [] := by
  unfold splitArguments
  split
  · next head after hsplit =>
    have hcs := splitFirst_eq_some hsplit
    split
    · next hlast =>
      obtain ⟨inner, rfl⟩ := List.getLast?_eq_some_iff.mp hlast
      rw [hcs, writtenNames_append_cons rfl, writtenNames_append_cons rfl, List.dropLast_concat]
      simp
    · simp
  · simp

theorem writtenNames_intercalate (pieces : List (List Char)) :
    writtenNames ([','].intercalate pieces) = pieces.flatMap writtenNames := by
  induction pieces with
  | nil => rfl
  | cons piece pieces ih =>
    cases pieces with
    | nil => simp
    | cons next pieces =>
      rw [List.intercalate_cons_cons, List.append_assoc, List.singleton_append,
        writtenNames_append_cons rfl, ih]
      exact List.flatMap_cons.symm

theorem flatMap_writtenNames_dropEmptyLast (pieces : List (List Char)) :
    (dropEmptyLast pieces).flatMap writtenNames = pieces.flatMap writtenNames := by
  fun_induction dropEmptyLast pieces with
  | case1 => rfl
  | case2 piece hempty =>
    obtain rfl : piece = [] := by simpa using hempty
    rfl
  | case3 => rfl
  | case4 piece others _ ih => rw [List.flatMap_cons, ih, List.flatMap_cons]

/-- The commas of a list separate its names. -/
theorem flatMap_writtenNames_topLevelParts (cs : List Char) :
    (topLevelParts cs).flatMap writtenNames = writtenNames cs := by
  rw [topLevelParts, flatMap_writtenNames_dropEmptyLast, List.flatMap_map]
  simp only [writtenNames_trim]
  rw [← writtenNames_intercalate, intercalate_cutFrom]

/-- The name in front of the type arguments of a written type. -/
def typeHead (cs : List Char) : List Char :=
  trim (splitArguments (splitNullable (trim cs)).1).1

/-- The type arguments of a written type. -/
def typePieces (cs : List Char) : List (List Char) :=
  ((splitArguments (splitNullable (trim cs)).1).2.map topLevelParts).getD []

theorem length_lt_of_mem_typePieces {cs piece : List Char} (h : piece ∈ typePieces cs) :
    piece.length < cs.length := by
  unfold typePieces at h
  cases hinner : (splitArguments (splitNullable (trim cs)).1).2 with
  | none =>
    rw [hinner] at h
    cases h
  | some inner =>
    rw [hinner, Option.map_some, Option.getD_some] at h
    calc piece.length ≤ inner.length := length_le_of_mem_topLevelParts h
      _ < (splitNullable (trim cs)).1.length := length_lt_of_splitArguments hinner
      _ ≤ (trim cs).length := length_splitNullable_le _
      _ ≤ cs.length := length_trim_le cs

/-- A written type is kept as it is, or it is a name with type arguments. -/
theorem typeText_induction {motive : List Char → Prop}
    (verbatim : ∀ cs, isDottedName (typeHead cs) = false → motive cs)
    (named : ∀ cs, isDottedName (typeHead cs) = true →
      (∀ piece ∈ typePieces cs, motive piece) → motive cs) (cs : List Char) : motive cs := by
  cases hhead : isDottedName (typeHead cs) with
  | false => exact verbatim cs hhead
  | true =>
    exact named cs hhead fun piece hpiece =>
      have := length_lt_of_mem_typePieces hpiece
      typeText_induction verbatim named piece
termination_by cs.length

theorem readType_of_verbatim {imports : Imports} {locals : List String} {cs : List Char}
    (h : isDottedName (typeHead cs) = false) :
    readType imports locals cs = opaqueType imports (trim cs) := by
  rw [readType_eq]
  simp only [typeHead] at h
  simp [h]

theorem readType_of_named {imports : Imports} {cs : List Char}
    (h : isDottedName (typeHead cs) = true) :
    readType imports [] cs =
      { name := imports.resolve (String.ofList (typeHead cs))
        arguments := (typePieces cs).map (readType imports [])
        nullable := (splitNullable (trim cs)).2 } := by
  rw [readType_eq]
  simp only [typeHead] at h ⊢
  simp only [h, Bool.not_true, Bool.false_eq_true, if_false, List.contains_nil, typePieces]
  congr 1
  cases (splitArguments (splitNullable (trim cs)).1).2 <;> rfl

/-- The names of a type are those of its pieces. -/
theorem writtenNames_eq_of_named {cs : List Char} (h : isDottedName (typeHead cs) = true) :
    writtenNames cs = typeHead cs :: (typePieces cs).flatMap writtenNames := by
  have hhead : writtenNames (splitArguments (splitNullable (trim cs)).1).1 = [typeHead cs] := by
    rw [← writtenNames_trim]
    exact writtenNames_of_isDottedName h
  rw [← writtenNames_trim, ← writtenNames_splitNullable, writtenNames_splitArguments, hhead,
    typePieces]
  cases (splitArguments (splitNullable (trim cs)).1).2 with
  | none => rfl
  | some inner => simp [flatMap_writtenNames_topLevelParts]

/-! ## The names of what is read -/

variable {imports : Imports} {cs : List Char} {name : String}

theorem typeNames_opaqueType (imports : Imports) (cs : List Char) :
    (opaqueType imports cs).typeNames = (mentionedTypes imports cs).map (·.name) := by
  have hplain : ∀ type ∈ mentionedTypes imports cs, type.typeNames = [type.name] := by
    intro type htype
    obtain ⟨found, -, hfound⟩ := List.mem_filterMap.mp htype
    split at hfound
    · cases hfound
      rfl
    · cases hfound
  rw [opaqueType, typeNames, typeNamesOf_eq_flatMap, if_pos rfl, List.nil_append,
    List.map_eq_flatMap]
  exact List.flatMap_congr hplain

/-- The names that a text mentions are the written ones whose first part is imported. -/
theorem map_name_mentionedTypes (imports : Imports) (cs : List Char) :
    (mentionedTypes imports cs).map (·.name) =
      ((writtenNames cs).filter fun written =>
        (imports.imported? (String.ofList (beforeFirst '.' written))).isSome).map
          fun written => imports.resolve (String.ofList written) := by
  unfold mentionedTypes writtenNames
  induction occurrences (fun _ => dottedName?) cs with
  | nil => rfl
  | cons found rest ih =>
    rw [List.filterMap_cons, List.map_cons, List.filter_cons]
    cases imports.imported? (String.ofList (beforeFirst '.' found.value)) with
    | none => simpa using ih
    | some qualified => simpa using ih

theorem typeNames_of_named (h : isDottedName (typeHead cs) = true) :
    (readType imports [] cs).typeNames = imports.resolve (String.ofList (typeHead cs)) ::
      (typePieces cs).flatMap fun piece => (readType imports [] piece).typeNames := by
  rw [readType_of_named h, typeNames, typeNamesOf_eq_flatMap, List.flatMap_map]
  rfl

/-- A type has no names but the written ones. -/
theorem exists_written_of_mem_typeNames (h : name ∈ (readType imports [] cs).typeNames) :
    ∃ written ∈ writtenNames cs, name = imports.resolve (String.ofList written) := by
  induction cs using typeText_induction with
  | verbatim cs hhead =>
    rw [readType_of_verbatim hhead, typeNames_opaqueType, map_name_mentionedTypes,
      writtenNames_trim] at h
    obtain ⟨written, hwritten, rfl⟩ := List.mem_map.mp h
    exact ⟨written, List.mem_of_mem_filter hwritten, rfl⟩
  | named cs hhead ih =>
    rw [typeNames_of_named hhead, List.mem_cons, List.mem_flatMap] at h
    rw [writtenNames_eq_of_named hhead]
    rcases h with rfl | ⟨piece, hpiece, hname⟩
    · exact ⟨typeHead cs, List.mem_cons_self, rfl⟩
    · obtain ⟨written, hwritten, rfl⟩ := ih piece hpiece hname
      exact ⟨written, List.mem_cons_of_mem _ (List.mem_flatMap.mpr ⟨piece, hpiece, hwritten⟩), rfl⟩

/-- A type has every written name whose first part is imported. -/
theorem mem_typeNames_of_written {written : List Char} (h : written ∈ writtenNames cs)
    (himported : (imports.imported? (String.ofList (beforeFirst '.' written))).isSome = true) :
    imports.resolve (String.ofList written) ∈ (readType imports [] cs).typeNames := by
  induction cs using typeText_induction with
  | verbatim cs hhead =>
    rw [readType_of_verbatim hhead, typeNames_opaqueType, map_name_mentionedTypes,
      writtenNames_trim]
    exact List.mem_map_of_mem (List.mem_filter.mpr ⟨h, himported⟩)
  | named cs hhead ih =>
    rw [writtenNames_eq_of_named hhead, List.mem_cons, List.mem_flatMap] at h
    rw [typeNames_of_named hhead]
    rcases h with rfl | ⟨piece, hpiece, hwritten⟩
    · exact List.mem_cons_self
    · exact List.mem_cons_of_mem _ (List.mem_flatMap.mpr ⟨piece, hpiece, ih piece hpiece hwritten⟩)

end Source

end ComponentWiring

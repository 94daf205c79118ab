import ComponentWiring.Proofs.Source.ListCutting
import ComponentWiring.Proofs.Source.Modifiers
import ComponentWiring.Source.TypeText

/-!
Reading types that were printed. A type tree is `Readable` under a table of imports if each of its
simple names is an ASCII name that the table resolves to the full name again. Such a tree is read back
from its text, at any depth, and no other tree with ASCII names is (`readable_iff_read_back`).

The text of a tree consists of few characters (`isTypeChar`) and closes its angle brackets
(`Spelled.balanced`), so that a list of types is cut where the commas between them stand.
-/

namespace ComponentWiring.Source

open Text TypeExpr

/-- A name of ASCII characters. -/
def IsAsciiName (cs : List Char) : Prop :=
  (∃ c ∈ cs.head?, isNameStart c = true) ∧ ∀ c ∈ cs, isAsciiWordChar c = true

instance (cs : List Char) : Decidable (IsAsciiName cs) :=
  decidable_of_iff (cs.head?.any isNameStart = true ∧ cs.all isAsciiWordChar = true)
    (by simp only [IsAsciiName, Option.any_eq_true, List.all_eq_true, Option.mem_def])

theorem IsAsciiName.isName {cs : List Char} (h : IsAsciiName cs) : IsName cs :=
  ⟨h.1, fun c hc => isWordChar_of_isAsciiWordChar (h.2 c hc)⟩

/-- A type that is written with ASCII names, and with nothing that is kept verbatim, at any
depth. -/
inductive Spelled : TypeExpr → Prop
  | intro {type : TypeExpr} (verbatim : type.isOpaque = false)
      (name : IsAsciiName (lastPart type.name).toList)
      (arguments : ∀ argument ∈ type.arguments, Spelled argument) : Spelled type

/-- A type whose names can be read back: each simple name is an ASCII name that stands for the full
name, as a local name or through the imports. -/
inductive Readable (imports : Imports) (locals : List String) : TypeExpr → Prop
  | intro {type : TypeExpr} (verbatim : type.isOpaque = false)
      (name : IsAsciiName (lastPart type.name).toList)
      (resolves : (if locals.contains (lastPart type.name) then lastPart type.name
        else imports.resolve (lastPart type.name)) = type.name)
      (arguments : ∀ argument ∈ type.arguments, Readable imports locals argument) :
      Readable imports locals type

theorem Readable.spelled {imports : Imports} {locals : List String} {type : TypeExpr}
    (h : Readable imports locals type) : Spelled type := by
  induction h with
  | intro verbatim name _ _ ih => exact .intro verbatim name ih

/-! ## The text of a type -/

/-- Type arguments as they are written. -/
def argumentText (arguments : List TypeExpr) : List Char :=
  if arguments.isEmpty then []
  else '<' :: (", ".toList.intercalate (arguments.map fun type => type.render.toList) ++ ['>'])

/-- A question mark for a nullable type. -/
def nullMark (nullable : Bool) : List Char :=
  if nullable then ['?'] else []

theorem toList_render {type : TypeExpr} (h : type.isOpaque = false) :
    type.render.toList =
      (lastPart type.name).toList ++ argumentText type.arguments ++ nullMark type.nullable := by
  obtain ⟨name, arguments, nullable, isOpaque⟩ := type
  subst h
  have harguments : (inBrackets (arguments.map render)).toList = argumentText arguments := by
    unfold inBrackets argumentText
    cases arguments with
    | nil => rfl
    | cons argument arguments => simp [String.toList_intercalate, Function.comp_def]
  have hmark : (if nullable = true then "?" else "").toList = nullMark nullable := by
    cases nullable <;> rfl
  rw [render, renderAll_eq_map, if_neg (by simp), String.toList_append, String.toList_append,
    harguments, hmark]

/-- A character that occurs in the text of a type. -/
def isTypeChar (c : Char) : Bool :=
  isAsciiWordChar c || "<>, ?".toList.contains c

namespace Spelled

variable {type : TypeExpr}

theorem isTypeChar_of_mem (h : Spelled type) :
    ∀ c ∈ type.render.toList, isTypeChar c = true := by
  induction h with
  | @intro type verbatim name _ ih =>
    intro c hc
    rw [toList_render verbatim, List.mem_append, List.mem_append] at hc
    rcases hc with (hc | hc) | hc
    · simp [isTypeChar, name.2 c hc]
    · unfold argumentText at hc
      split_ifs at hc
      · cases hc
      · rw [List.mem_cons, List.mem_append, List.mem_singleton] at hc
        rcases hc with rfl | hc | rfl
        · rfl
        · rcases mem_of_mem_intercalate hc with hc | ⟨_, htext, hc⟩
          · simp only [String.reduceToList, List.mem_cons, List.not_mem_nil, or_false] at hc
            rcases hc with rfl | rfl <;> rfl
          · obtain ⟨argument, hargument, rfl⟩ := List.mem_map.mp htext
            exact ih argument hargument c hc
        · rfl
    · cases hnull : type.nullable with
      | false => simp [hnull, nullMark] at hc
      | true =>
        simp only [hnull, nullMark, if_true, List.mem_singleton] at hc
        subst hc
        rfl

/-- A character that occurs in no type does not occur in this one. -/
theorem not_mem {c : Char} (h : Spelled type) (hc : isTypeChar c = false) :
    c ∉ type.render.toList := by
  intro hmem
  simp [h.isTypeChar_of_mem c hmem] at hc

theorem not_quote (h : Spelled type) :
    ∀ c ∈ type.render.toList, isQuote c = false := by
  intro c hc
  exact isQuote_of_class (p := isTypeChar) (by decide) (h.isTypeChar_of_mem c hc)

theorem balanced (h : Spelled type) : IsBalanced true type.render.toList := by
  induction h with
  | @intro type verbatim name arguments ih =>
    rw [toList_render verbatim]
    refine .append (.append (.of_isPlain ?_) ?_) ?_
    · exact List.all_eq_true.mpr fun c hc =>
        isPlain_of_class (p := isAsciiWordChar) (by decide) (name.2 c hc)
    · unfold argumentText
      split_ifs
      · exact .nil
      · refine .bracketed (List.forall_mem_map.mpr ih) ?_
        exact List.forall_mem_map.mpr fun argument hargument =>
          (arguments argument hargument).not_mem (by decide)
    · cases type.nullable
      · exact .nil
      · exact .of_isPlain (by decide)

/-- Without its question mark the text ends with a name or with a closing bracket. -/
theorem last_body (name : IsAsciiName (lastPart type.name).toList) :
    ∀ c ∈ ((lastPart type.name).toList ++ argumentText type.arguments).getLast?,
      isAsciiWordChar c = true ∨ c = '>' := by
  intro c hc
  unfold argumentText at hc
  split_ifs at hc
  · rw [List.append_nil] at hc
    exact .inl (name.2 c (List.mem_of_getLast? hc))
  · rw [← List.cons_append, ← List.append_assoc, List.getLast?_concat] at hc
    exact .inr (Option.some.inj hc).symm

theorem body_trimmed (name : IsAsciiName (lastPart type.name).toList) :
    Trimmed ((lastPart type.name).toList ++ argumentText type.arguments) where
  ne_nil := by simp [name.isName.ne_nil]
  head := name.isName.trimmed.head_append _
  last := by
    intro c hc
    rcases last_body name c hc with hword | rfl
    · exact isBlank_of_isWordChar (isWordChar_of_isAsciiWordChar hword)
    · rfl

theorem trimmed (h : Spelled type) : Trimmed type.render.toList := by
  obtain ⟨verbatim, name, -⟩ := h
  rw [toList_render verbatim]
  cases type.nullable with
  | false => simpa [nullMark] using body_trimmed name
  | true =>
    exact (show Trimmed ['?'] by decide).append_left (body_trimmed name).ne_nil
      (body_trimmed name).head

end Spelled

/-! ## Reading a type -/

theorem readType_eq (imports : Imports) (locals : List String) (cs : List Char) :
    readType imports locals cs =
      let text := trim cs
      let body := splitNullable text
      let parts := splitArguments body.1
      let head := trim parts.1
      if !isDottedName head then opaqueType imports text
      else
        { name := if locals.contains (String.ofList head) then String.ofList head
            else imports.resolve (String.ofList head)
          arguments := (parts.2.map fun inner =>
            (topLevelParts inner).map (readType imports locals)).getD []
          nullable := body.2 } := by
  rw [readType]
  simp only
  congr 2
  split <;> rename_i hinner <;> rw [hinner]
  · rfl
  · simp

theorem isDottedName_of_isAsciiName {cs : List Char} (h : IsAsciiName cs) :
    isDottedName cs = true := by
  obtain ⟨⟨c, hc, hstart⟩, hword⟩ := h
  obtain ⟨rest, rfl⟩ : ∃ rest, cs = c :: rest := by
    cases cs with
    | nil => cases hc
    | cons d rest => exact ⟨rest, by rw [Option.some.inj hc]⟩
  have hall : ∀ d ∈ rest, isAsciiWordChar d = true :=
    fun d hd => hword d (List.mem_cons_of_mem _ hd)
  have hname : asciiName? (c :: rest) = some (c :: rest, []) := by
    rw [asciiName?, if_pos hstart, List.takeWhile_eq_self_iff.mpr hall,
      List.dropWhile_eq_nil_iff.mpr hall]
  have hdotted : dottedName? (c :: rest) = some (c :: rest, []) := by
    have hstop : readAll dotAndName? [] = ([], []) := readAll_eq_of_none rfl
    simp [dottedName?, hname, hstop]
  rw [isDottedName, hdotted]

theorem splitNullable_append {body : List Char} (hbody : Trimmed body)
    (hcall : body.getLast? ≠ some ')') (hmark : body.getLast? ≠ some '?') (nullable : Bool) :
    splitNullable (body ++ nullMark nullable) = (body, nullable) := by
  cases nullable with
  | false =>
    rw [nullMark, if_neg (by simp), List.append_nil, splitNullable]
    split
    · next h => exact absurd h hmark
    · rfl
  | true =>
    rw [nullMark, if_pos rfl, splitNullable, List.getLast?_concat]
    simp only [List.dropLast_concat, trimEnd_eq_self hbody.last, if_neg hcall]

theorem splitArguments_append {name : List Char} (hname : '<' ∉ name) (arguments : List TypeExpr) :
    splitArguments (name ++ argumentText arguments) =
      (name, if arguments.isEmpty then none
        else some (", ".toList.intercalate (arguments.map fun type => type.render.toList))) := by
  unfold argumentText
  split_ifs
  · rw [List.append_nil, splitArguments, splitFirst_eq_none hname]
  · rw [splitArguments, splitFirst_append hname]
    simp only [List.getLast?_concat, if_true, List.dropLast_concat]

namespace Spelled

variable {type : TypeExpr}

theorem splitNullable_render (h : Spelled type) : splitNullable type.render.toList =
    ((lastPart type.name).toList ++ argumentText type.arguments, type.nullable) := by
  obtain ⟨verbatim, name, -⟩ := h
  have hlast {c : Char}
      (hc : ((lastPart type.name).toList ++ argumentText type.arguments).getLast? = some c) :
      c ≠ ')' ∧ c ≠ '?' := by
    rcases last_body name c hc with hword | rfl
    · constructor <;> rintro rfl <;> exact absurd hword (by decide)
    · decide
  rw [toList_render verbatim]
  exact splitNullable_append (body_trimmed name) (fun hc => (hlast hc).1 rfl)
    (fun hc => (hlast hc).2 rfl) _

/-- The arguments are read one by one. -/
theorem readArguments_render (h : Spelled type) (imports : Imports) (locals : List String) :
    ((if type.arguments.isEmpty then none
      else some (", ".toList.intercalate (type.arguments.map fun type => type.render.toList))).map
        fun inner => (topLevelParts inner).map (readType imports locals)).getD [] =
      type.arguments.map fun argument => readType imports locals argument.render.toList := by
  obtain ⟨-, -, arguments⟩ := h
  cases hempty : type.arguments with
  | nil => rfl
  | cons argument rest =>
    have hbalanced : ∀ text ∈ type.arguments.map (fun type => type.render.toList),
        IsBalanced true text :=
      List.forall_mem_map.mpr fun a ha => (arguments a ha).balanced
    have htrimmed : ∀ text ∈ type.arguments.map (fun type => type.render.toList),
        Trimmed text :=
      List.forall_mem_map.mpr fun a ha => (arguments a ha).trimmed
    rw [if_neg (by simp), ← hempty, Option.map_some, Option.getD_some,
      topLevelParts_intercalate hbalanced htrimmed, List.map_map]
    rfl

/-- What the text of a type is read into: the name is what the simple name stands for, and the
arguments are read from their own texts. -/
theorem readType_render (h : Spelled type) (imports : Imports) (locals : List String) :
    readType imports locals type.render.toList =
      { name := if locals.contains (lastPart type.name) then lastPart type.name
          else imports.resolve (lastPart type.name)
        arguments :=
          type.arguments.map fun argument => readType imports locals argument.render.toList
        nullable := type.nullable } := by
  obtain ⟨-, name, -⟩ := id h
  have hangle : '<' ∉ (lastPart type.name).toList := by
    intro hmem
    exact absurd (name.2 _ hmem) (by decide)
  rw [readType_eq]
  simp only [h.trimmed.trim_eq, h.splitNullable_render, splitArguments_append hangle,
    name.isName.trimmed.trim_eq, isDottedName_of_isAsciiName name, String.ofList_toList,
    h.readArguments_render, Bool.not_true, Bool.false_eq_true, if_false]

end Spelled

/-- A readable type is read back from its text. -/
theorem readType_render {imports : Imports} {locals : List String} {type : TypeExpr}
    (h : Readable imports locals type) : readType imports locals type.render.toList = type := by
  induction h with
  | @intro type verbatim name resolves arguments ih =>
    have hspelled : Spelled type := .intro verbatim name fun a ha => (arguments a ha).spelled
    rw [hspelled.readType_render, resolves, List.map_congr_left ih, List.map_id']
    obtain ⟨typeName, _, _, isOpaque⟩ := type
    cases verbatim
    rfl

/-- The readable types are exactly the types written with ASCII names that are read back from their
text, with whatever arguments, at whatever depth. -/
theorem readable_iff_read_back (imports : Imports) (locals : List String) (type : TypeExpr) :
    Readable imports locals type ↔
      Spelled type ∧ readType imports locals type.render.toList = type := by
  constructor
  · intro h
    exact ⟨h.spelled, readType_render h⟩
  · intro ⟨hspelled, hread⟩
    induction hspelled with
    | @intro type verbatim name arguments ih =>
      have hnode := (Spelled.intro verbatim name arguments).readType_render imports locals
      rw [hread] at hnode
      have harguments : (type.arguments.map fun a => readType imports locals a.render.toList) =
          type.arguments := (congrArg TypeExpr.arguments hnode).symm
      refine .intro verbatim name (congrArg TypeExpr.name hnode).symm fun a ha => ih a ha ?_
      exact List.map_inj_left.mp (harguments.trans (List.map_id _).symm) a ha

/-- A type with an imported name, a local one and one of the package. -/
def nestedType : TypeExpr where
  name := "org.data.Table"
  arguments := [{ name := "T" },
    { name := "kotlin.collections.List", arguments := [{ name := "app.Card", nullable := true }] }]
  nullable := true

theorem readable_iff_read_back_nested :
    nestedType.render = "Table<T, List<Card?>>?" ∧
      readType ((Imports.forPackage "app").insert "org.data.Table" none) ["T"]
        nestedType.render.toList = nestedType := by
  have hreadable :
      Readable ((Imports.forPackage "app").insert "org.data.Table" none) ["T"] nestedType := by
    refine .intro rfl (by decide +kernel) (by decide +kernel) ?_
    refine List.forall_mem_cons.mpr ⟨?_, List.forall_mem_singleton.mpr ?_⟩
    · exact .intro rfl (by decide +kernel) (by decide +kernel) (by simp)
    · refine .intro rfl (by decide +kernel) (by decide +kernel) ?_
      refine List.forall_mem_singleton.mpr ?_
      exact .intro rfl (by decide +kernel) (by decide +kernel) (by simp)
  exact ⟨by decide +kernel, ((readable_iff_read_back _ _ _).mp hreadable).2⟩

end ComponentWiring.Source

import ComponentWiring.Proofs.Source.ClassFindings
import ComponentWiring.Proofs.Source.Expressions
import ComponentWiring.Proofs.Source.PlainTexts

/-!
Files that declare nothing. A text is inert if no class opens in it and no property is marked in it;
unlike a plain text it may well have the words of class heads in places where nothing can open, such
as behind a dot. Read as a file, an inert text contributes nothing (`idle_of_inert`). An unmarked
class between inert texts is listed in the hierarchy, and that is all (`idle_of_class`).
-/

namespace ComponentWiring.Source

open Text

/-! ## Inert texts -/

/-- A text in which no class opens, without the marker of properties. -/
structure Inert (cs : List Char) : Prop where
  heads : HeadFree cs
  marker : MarkFree propertyMarker cs

theorem Plain.inert {cs : List Char} (h : Plain cs) : Inert cs :=
  ⟨h.headFree, h.marker⟩

/-- A character that is neither a blank nor a slash, behind which a word opens no class, and that is
not the sign of annotations. -/
def isSolid (c : Char) : Bool :=
  !(isBlank c || c == '/' || c == '@')

theorem isSolid_of_isDottedChar {c : Char} (h : isDottedChar c = true) : isSolid c = true := by
  have hother {d : Char} (hd : isDottedChar d = false) : c ≠ d := by
    rintro rfl
    exact Bool.false_ne_true (hd.symm.trans h)
  have hblank : isBlank c = false := by
    rw [← Bool.not_eq_true]
    intro hblank
    rw [(precedesHead_eq_true_iff.mp (precedesHead_of_isBlank hblank)).1] at h
    cases h
  simp [isSolid, hblank, hother (d := '/') (by decide), hother (d := '@') (by decide)]

theorem isSolid_of_isWordChar {c : Char} (h : isWordChar c = true) : isSolid c = true :=
  isSolid_of_isDottedChar (by simp [isDottedChar, h])

namespace Inert

variable {as bs cs : List Char} {c : Char}

theorem append_cons (has : Inert (as ++ [c])) (hc : precedesHead c = true) (hbs : Inert bs) :
    Inert (as ++ c :: bs) :=
  ⟨.append_cons (isWordChar_of_precedesHead hc) has.heads hbs.heads,
    (markFree_append_cons hc).mpr ⟨((markFree_append_cons hc).mp has.marker).1, hbs.marker⟩⟩

/-- Behind a stretch without blanks, whatever its words. -/
theorem solid_append (has : ∀ c ∈ as, isSolid c = true) (hc : precedesHead c = true)
    (hsolid : isSolid c = true) (hbs : Inert bs) : Inert (as ++ c :: bs) := by
  simp only [isSolid, Bool.not_eq_true', Bool.or_eq_false_iff, beq_eq_false_iff_ne] at has hsolid
  refine append_cons ⟨.of_solid fun d hd => ?_, markFree_of_not_mem fun hsign => ?_⟩ hc hbs
  · rcases List.mem_append.mp hd with hd | hd
    · exact (has d hd).1
    · obtain rfl := List.mem_singleton.mp hd
      exact hsolid.1
  · rcases List.mem_append.mp hsign with hsign | hsign
    · exact (has '@' hsign).2 rfl
    · exact hsolid.2 (List.mem_singleton.mp hsign).symm

/-- A dotted name, whatever its parts. -/
theorem of_dotted (h : ∀ c ∈ cs, isDottedChar c = true) (hdot : '.' ∈ cs)
    (hc : precedesHead c = true) : Inert (cs ++ [c]) :=
  ⟨.of_dotted h hdot c, (markFree_append_cons hc).mpr
    ⟨markFree_of_not_mem (not_sign_of_dotted h), Plain.nil.marker⟩⟩

theorem mask (h : Inert cs) (state : CommentState) : Inert (state.mask cs) :=
  ⟨h.heads.mask state, h.marker.mask state⟩

end Inert

/-! ## Files of inert texts -/

/-- What a file declares that has only unmarked classes of the given names, and no marked
property. -/
structure FileFindings.Idle (found : FileFindings) (names : List String) : Prop where
  declarations : found.declarations = []
  properties : found.properties = []
  diagnostics : found.diagnostics = []
  hierarchy : ∀ key, TypeExpr.lastPart key ∉ names → found.hierarchy.find? key = none

theorem FileFindings.Idle.mono {found : FileFindings} {names names' : List String}
    (h : found.Idle names) (hsub : names ⊆ names') : found.Idle names' :=
  { h with hierarchy := fun key hkey => h.hierarchy key fun hmem => hkey (hsub hmem) }

variable {text : List Char} {names : List String}

theorem idle_of_heads (h : ∀ found ∈ classHeads (blankComments text), found.value.name ∈ names ∧
      carriesMarker found.value.annotations classMarker = false ∧
      MarkFree propertyMarker found.rest) (path : String) (fallback : Convention) :
    (FileFindings.read path text fallback).Idle names := by
  have hclasses : ∀ {file : FileContext} {c : ClassFindings},
      c ∈ ((classHeads (blankComments text)).filter fun found =>
        !found.value.has "companion").map file.findings →
      TypeExpr.lastPart c.qualifiedName ∈ names ∧ c.outcome = none ∧ c.properties = [] := by
    intro file c hc
    obtain ⟨found, hfound, rfl⟩ := List.mem_map.mp hc
    have hmem := (List.mem_filter.mp hfound).1
    obtain ⟨hname, hunmarked, hrest⟩ := h found hmem
    have hdot : '.' ∉ found.value.name.toList := fun hdot =>
      absurd ((isName_of_mem_classHeads hmem).2 '.' hdot) (by decide)
    refine ⟨?_, ?_, FileContext.properties_eq_nil hrest⟩
    · rwa [FileContext.findings, lastPart_qualify hdot]
    · simp only [FileContext.findings, hunmarked, Bool.false_eq_true, if_false]
  refine ⟨?_, ?_, ?_, fun key hkey => ?_⟩
  · refine List.filterMap_eq_nil_iff.mpr fun c hc => ?_
    rw [(hclasses hc).2.1, Option.bind_none]
  · exact List.flatMap_eq_nil_iff.mpr fun c hc => (hclasses hc).2.2
  · refine List.filterMap_eq_nil_iff.mpr fun c hc => ?_
    rw [(hclasses hc).2.1]
  · rw [ClassHierarchy.find?, FileFindings.read, byName_hierarchy_ofFindings,
      Option.eq_none_iff_forall_ne_some]
    intro known hknown
    obtain ⟨c, hc, heq⟩ := List.mem_map.mp (Keyed.mem_of_get?_ofList hknown)
    cases heq
    exact hkey (hclasses hc).1

/-- An inert file declares nothing. -/
theorem idle_of_inert (h : Inert text) (path : String) (fallback : Convention) :
    (FileFindings.read path text fallback).Idle [] := by
  refine idle_of_heads (fun found hfound => ?_) path fallback
  rw [blankComments, (Nameless.of_headFree (h.heads.mask _)).classHeads_eq_nil] at hfound
  cases hfound

/-- A text behind which an unmarked class can stand: it ends outside comments and literals, and it
carries no marker into the head of the class. -/
structure Preamble (cs : List Char) : Prop where
  silent : Silent cs
  inert : Inert cs
  unmarked : MarkFree classMarker cs
  ends : ∀ c ∈ cs.getLast?, isWordChar c = false

/-- In front of a class, and as far as its name, no comment is blanked out. -/
theorem blankComments_class {before name rest : List Char} (hbefore : Silent before)
    (hname : IsName name) (hhead : ∀ c ∈ rest.head?, c = ' ' ∨ c = '(') :
    blankComments (before ++ ("class".toList ++ ' ' :: (name ++ rest))) =
      before ++ ("class".toList ++ ' ' :: (name ++ blankComments rest)) := by
  have hfront : Silent (before ++ ("class".toList ++ ' ' :: name)) := by
    have hclass : Silent name := .of_class (p := isWordChar) (by decide) hname.2
    refine hbefore.append (.append ⟨by decide, rfl⟩ (hclass.cons (by decide) rfl) ?_) ?_ <;> simp
  have hnext : ∀ c ∈ rest.head?, c ≠ '/' ∧ c ≠ '*' := fun c hc => by
    rcases hhead c hc with rfl | rfl <;> decide
  simpa using hfront.blankComments_append hnext

theorem precedesHead_of_blankComments {rest : List Char} (hhead : ∀ c ∈ rest.head?, c = ' ' ∨ c = '(')
    {c : Char} (hc : c ∈ (blankComments rest).head?) : precedesHead c = true := by
  rcases CommentState.head?_mask hc with hc | ⟨rfl, -⟩
  · rcases hhead c hc with rfl | rfl <;> decide
  · decide

/-- A file with one unmarked class and inert texts around it only lists the class. -/
theorem idle_of_class {before name rest : List Char} (hbefore : Preamble before)
    (hname : IsName name) (hword : String.ofList name ∉ classWords) (hrest : Inert rest)
    (hhead : ∀ c ∈ rest.head?, c = ' ' ∨ c = '(') (path : String) (fallback : Convention) :
    (FileFindings.read path (before ++ ("class".toList ++ ' ' :: (name ++ rest))) fallback).Idle
      [String.ofList name] := by
  refine idle_of_heads (fun found hfound => ?_) path fallback
  rw [blankComments_class hbefore.silent hname hhead] at hfound
  obtain ⟨heq, hleft, hmarked⟩ := eq_of_mem_classHeads hbefore.inert.heads hbefore.ends hname
    hword (.of_headFree (hrest.mask _).heads) (fun c => precedesHead_of_blankComments hhead) hfound
  exact ⟨List.mem_singleton.mpr heq, hmarked _ hbefore.unmarked, hleft ▸ (hrest.mask _).marker⟩

end ComponentWiring.Source

import ComponentWiring.Proofs.Pass.InvisibleComments
import ComponentWiring.Proofs.Source.LiteralContent
import ComponentWiring.Proofs.Source.QuotedLines

/-!
What literals say is not read, as long as it does not look like code: class heads and secondary
constructors are looked for in the whole text, literals included. A literal that stands outside
class headers and holds neither of them can say anything else of the same length on its line, and
the file declares the same (`LiteralPlace.declared_read_text`). A word such as `class` in front of
another one is enough to bring in a class (`readHelp_spokenWords`).
-/

namespace ComponentWiring.Source

open Text

/-! ## Literals in a text with comments -/

namespace CommentState

/-- What is written for a text and the state behind it depend on what follows only by its first
character. -/
theorem exists_mask_append (state : CommentState) (cs : List Char) (next : Option Char) :
    ∃ written behind, behind.literal = state.literal.run written ∧
      ∀ rest, rest.head? = next → mask state (cs ++ rest) = written ++ mask behind rest := by
  induction cs generalizing state with
  | nil => exact ⟨[], state, rfl, fun _ _ => rfl⟩
  | cons c cs ih =>
    have hnext (rest : List Char) (hrest : rest.head? = next) :
        (cs ++ rest).head? = cs.head?.or next := by
      rw [List.head?_append, hrest]
    obtain ⟨written, behind, hliteral, hmask⟩ := ih (state.step c (cs.head?.or next)).2
    refine ⟨(state.step c (cs.head?.or next)).1 ++ written, behind, ?_, fun rest hrest => ?_⟩
    · rw [hliteral, LiteralState.run_append]
      congr 1
      rcases state.step_cases_literal c (cs.head?.or next) with
        ⟨literal, rfl, -, hstep⟩ | ⟨hcode, hwritten, hbehind⟩
      · rw [hstep]
        rfl
      · have hblank : ∀ d ∈ blankFor c, isBlank d = true := fun d => isBlank_of_mem_blankFor
        have hslash : '/' ∉ blankFor c := fun hmem => absurd (hblank _ hmem) (by decide)
        rw [hwritten, hbehind, hcode, (Silent.of_not_mem hslash fun d hd =>
          isQuote_of_class (p := isBlank) (by decide) (hblank d hd)).closes]
    · rw [List.cons_append, mask, hnext rest hrest]
      simp only [hmask rest hrest, List.append_assoc]

theorem mask_of_open {literal : LiteralState} {cs : List Char}
    (hopen : ∀ front, front <+: cs → literal.run front ≠ .code) (rest : List Char) :
    mask (source literal) (cs ++ rest) = cs ++ mask (source (literal.run cs)) rest := by
  induction cs generalizing literal with
  | nil => rfl
  | cons c cs ih =>
    have hhere : literal ≠ .code := hopen [] List.nil_prefix
    have hlater : ∀ front, front <+: cs → (literal.step c).run front ≠ .code :=
      fun front hfront => hopen (c :: front) ((List.prefix_cons_inj c).mpr hfront)
    have hstep (next : Option Char) :
        (source literal).step c next = ([c], source (literal.step c)) := by
      cases literal with
      | code => exact absurd rfl hhere
      | inside quote => rfl
      | escaped quote => rfl
    rw [List.cons_append, mask, hstep]
    exact congrArg (c :: ·) (ih hlater)

end CommentState

/-- A place in a source text where a quote opens a literal, and the text behind the literal. The
quote stands in no comment and in no other literal. -/
structure LiteralPlace where
  before : List Char
  quote : Char
  after : List Char
  /-- The text up to the quote with its comments blanked out. -/
  front : List Char
  isQuote : isQuote quote = true
  masked : blankComments (before ++ [quote]) = front ++ [quote]
  code : LiteralState.code.run front = .code

namespace LiteralPlace

variable (place : LiteralPlace)

/-- The text behind the literal with its comments blanked out. -/
def tail : List Char :=
  blankComments place.after

/-- The source text in which the literal says `content`. -/
def text (content : List Char) : List Char :=
  place.before ++ place.quote :: (content ++ place.quote :: place.after)

/-- The literal with the text behind it, with its comments blanked out. -/
def literal (content : List Char) : List Char :=
  place.quote :: (content ++ place.quote :: place.tail)

variable {place} {content content' : List Char}

theorem blankComments_text (h : IsContent place.quote content) :
    blankComments (place.text content) = place.front ++ place.literal content := by
  have hslash : place.quote ≠ '/' := ne_of_isQuote place.isQuote rfl
  have hescape : place.quote ≠ '\\' := ne_of_isQuote place.isQuote rfl
  obtain ⟨written, behind, hliteral, hmask⟩ :=
    CommentState.exists_mask_append (.source .code) place.before (some place.quote)
  have hmasked : written ++ (behind.step place.quote none).1 = place.front ++ [place.quote] := by
    have hstart := hmask [place.quote] rfl
    rw [show CommentState.mask (.source .code) (place.before ++ [place.quote]) =
      place.front ++ [place.quote] from place.masked] at hstart
    rw [hstart]
    simp [CommentState.mask]
  rcases behind.step_cases_literal place.quote none with
    ⟨literal, rfl, -, hstep⟩ | ⟨-, hwritten, -⟩
  · rw [hstep] at hmasked
    obtain rfl := List.append_cancel_right hmasked
    obtain rfl : literal = .code := hliteral.trans place.code
    rw [blankComments, text, hmask _ rfl, CommentState.mask_cons_of_ne hslash, LiteralState.step,
      if_pos place.isQuote, CommentState.mask_of_open h.stays, h.ends,
      CommentState.mask_cons_of_ne hslash, LiteralState.step, if_neg hescape, if_pos rfl]
    rfl
  · have hlast := congrArg List.getLast? hmasked
    rw [hwritten, List.getLast?_append_of_ne_nil _ (CommentState.blankFor_ne_nil _),
      List.getLast?_concat] at hlast
    have hblank := CommentState.isBlank_of_mem_blankFor (List.mem_of_getLast? hlast)
    rw [class_of_isQuote (p := isBlank) (by decide) place.isQuote] at hblank
    cases hblank

/-! ## Class heads -/

/-- The literal stands outside class headers: no head that starts in front of it reaches over its
quote, and the header of each class in front of it ends there, with no literal open behind it. -/
structure OutsideHeaders (place : LiteralPlace) (content : List Char) : Prop where
  heads : ComesTo classHead? 0 none place.front (place.literal content)
  headers : ∀ found ∈ classHeads place.front, ∃ left,
    behindHeader? (found.rest ++ place.literal content) = some (left ++ place.literal content) ∧
      LiteralState.code.run left = .code

/-- The literal holds nothing that looks like code: no class head starts in it, and it says nothing
of a secondary constructor. -/
structure Mute (place : LiteralPlace) (content : List Char) : Prop where
  heads : ∀ before c after, content = before ++ c :: after →
    classHead? (before.getLast?.or (some place.quote))
      (c :: (after ++ place.quote :: place.tail)) = none
  constructors : occurs secondaryConstructor? content = false

/-- Free of the words of class heads, a text without annotations holds none. -/
theorem Mute.of_freeOf (hat : '@' ∉ content) (hwords : FreeOf classWords content)
    (hconstructor : occurs secondaryConstructor? content = false) : place.Mute content := by
  refine ⟨fun before c after heq => ?_, hconstructor⟩
  have hhead : '@' ∉ (c :: after).head? := by
    intro hc
    obtain rfl : c = '@' := Option.some.inj hc
    exact hat (heq ▸ List.mem_append_right _ List.mem_cons_self)
  have hannotations : annotations (c :: after ++ place.quote :: place.tail) =
      ((annotations (c :: after)).1,
        (annotations (c :: after)).2 ++ place.quote :: place.tail) := by
    rw [annotations_of_head hhead]
    exact annotations_of_head hhead
  rw [← List.cons_append, classHead?_append_quote place.isQuote hannotations]
  cases h : classHead? (before.getLast?.or (some place.quote)) (c :: after) with
  | none => rfl
  | some r =>
    obtain ⟨hprevious, hnot⟩ := not_freeOf_of_classHead? h
    refine absurd (fun run hrun => hwords run ?_) hnot
    rw [heq]
    exact wordRuns_subset_append (fun d hd => hprevious d (Option.mem_def.mp hd ▸ rfl)) hrun

/-- The classes of the text are those in front of the literal and those behind it. -/
theorem classHeads_literal (houtside : place.OutsideHeaders content) (hmute : place.Mute content) :
    classHeads (place.front ++ place.literal content) =
      (classHeads place.front).map (·.extend (place.literal content)) ++
        occurrencesFrom classHead? 0
          (byteLength (place.front ++ place.quote :: (content ++ [place.quote])))
          (some place.quote) place.tail := by
  have hquotes (previous : Option Char) (rest : List Char) :
      classHead? previous (place.quote :: rest) = none := by
    have hword : isWordChar place.quote = false := class_of_isQuote (by decide) place.isQuote
    refine classHead?_eq_none ?_ ?_
    · exact fun h => ne_of_isQuote place.isQuote (d := '@') rfl (Option.some.inj h)
    · rw [List.takeWhile_cons_of_neg (by simp [hword])]
      decide
  have hends (previous : Option Char) (part : List Char) (head : ClassHead) (left : List Char)
      (hread : classHead? previous (part ++ place.literal content) = some (head, left))
      (hlength : (place.literal content).length ≤ left.length) : place.literal content <:+ left :=
    List.suffix_of_suffix_length_le (List.suffix_append _ _) (suffix_of_classHead? _ _ _ _ hread)
      hlength
  have hstop (previous : Option Char) :
      StopsBefore (place.literal content) (classHead? previous) :=
    stopsBefore_classHead? place.isQuote previous
  rw [classHeads, occurrences, occurrencesFrom_append (fun previous part _ _ => hstop previous part)
      (fun previous part _ _ => hends previous part) houtside.heads 0,
    literal, occurrencesFrom_literal hquotes hmute.heads, byteLength_append, Nat.zero_add]
  rfl

end LiteralPlace

/-! ## What a class declares -/

/-- What a class contributes, its properties left out. -/
def ClassFindings.declared (c : ClassFindings) : ClassFindings :=
  { c with properties := [] }

/-- What a file declares, the properties left out. -/
def FileFindings.declared (found : FileFindings) : FileFindings :=
  { found with properties := [] }

theorem FileFindings.declared_ofFindings (file : FileContext) (classes : List ClassFindings) :
    (ofFindings file classes).declared = (ofFindings file (classes.map (·.declared))).declared := by
  simp only [FileFindings.declared, ofFindings, List.filterMap_map, List.foldl_map]
  rfl

/-- What a file declares is what its classes declare. -/
theorem FileFindings.declared_ofFindings_congr {file file' : FileContext}
    {classes classes' : List ClassFindings} (hpath : file.path = file'.path)
    (himports : file.imports = file'.imports)
    (h : classes.map (·.declared) = classes'.map (·.declared)) :
    (ofFindings file classes).declared = (ofFindings file' classes').declared := by
  rw [declared_ofFindings file, declared_ofFindings file', h]
  simp only [FileFindings.declared, ofFindings, hpath, himports]

namespace FileContext

variable {file file' : FileContext}

/-- The constructor parameters of a class depend on its body only if it has no constructor. -/
theorem constructorParameters_congr (head : ClassHead) {header header' : Header}
    (himports : file.imports = file'.imports) (hfallback : file.fallback = file'.fallback)
    (hfront : header.front = header'.front)
    (hbody : header.shape = .implicit →
      (header.body.map (·.text)).any (occurs secondaryConstructor?) =
        (header'.body.map (·.text)).any (occurs secondaryConstructor?)) :
    file.constructorParameters head header = file'.constructorParameters head header' := by
  obtain ⟨types, shape, supertypes, body⟩ := header
  obtain ⟨types', shape', supertypes', body'⟩ := header'
  simp only [Header.front, Header.mk.injEq, and_true] at hfront
  obtain ⟨rfl, rfl, rfl⟩ := hfront
  unfold constructorParameters
  cases shape with
  | implicit =>
    have hany := hbody rfl
    simp only [Option.any_map] at hany
    simp only [hany]
  | primary inside visibility => simp only [himports, hfallback]
  | unbalanced => rfl

/-- Two files with the same imports in which a class has the same place and its header says the
same. -/
theorem declared_findings_congr {found found' : Occurrence ClassHead}
    (himports : file.imports = file'.imports) (hfallback : file.fallback = file'.fallback)
    (hvalue : found.value = found'.value)
    (hplace : file.locate found.stop = file'.locate found'.stop)
    (hfront : (Header.read found.stop found.rest).front =
      (Header.read found'.stop found'.rest).front)
    (hbody : (Header.read found.stop found.rest).shape = .implicit →
      ((Header.read found.stop found.rest).body.map (·.text)).any (occurs secondaryConstructor?) =
        ((Header.read found'.stop found'.rest).body.map (·.text)).any
          (occurs secondaryConstructor?)) :
    (file.findings found).declared = (file'.findings found').declared := by
  have htypes := congrArg Header.typeParameters hfront
  have hsupertypes := congrArg Header.supertypes hfront
  simp only [Header.front] at htypes hsupertypes
  have hparameters := constructorParameters_congr found'.value himports hfallback hfront hbody
  simp only [ClassFindings.declared, findings, himports, hvalue, htypes, hsupertypes, hplace,
    hparameters]

end FileContext

/-! ## Lines -/

/-- The line of a place does not depend on what stands behind it. -/
theorem lineAt_of_mem_classHeads {front : List Char} {found : Occurrence ClassHead}
    (h : found ∈ classHeads front) (rest : List Char) :
    lineAt (front ++ rest) found.stop = lineAt front found.stop := by
  obtain ⟨before, taken, rfl, hstop, -⟩ := exists_taken_of_mem_occurrences suffix_of_classHead? h
  rw [hstop, ← List.append_assoc, lineAt_append, List.append_assoc, lineAt_append]

/-- Nor on what stands in front of it, but for its length and its line breaks. -/
theorem lineAt_of_mem_occurrencesFrom {α : Type} {reader : ReaderAt α} {previous : Option Char}
    {front front' tail : List Char} {found : Occurrence α}
    (h : found ∈ occurrencesFrom reader 0 (byteLength front) previous tail)
    (hbytes : byteLength front = byteLength front')
    (hbreaks : lineBreaks front = lineBreaks front') :
    lineAt (front ++ tail) found.stop = lineAt (front' ++ tail) found.stop := by
  obtain ⟨before, c, after, rfl, -, -, hstop⟩ := mem_occurrencesFrom_iff.mp h
  generalize (c :: after).length - found.rest.length = taken at hstop
  have hline (front : List Char) :
      lineAt (front ++ (before ++ c :: after))
          (byteLength front + byteLength before + byteLength ((c :: after).take taken)) =
        lineBreaks front + lineBreaks (before ++ (c :: after).take taken) + 1 := by
    have hcut : front ++ (before ++ c :: after) =
        front ++ (before ++ (c :: after).take taken) ++ (c :: after).drop taken := by
      simp only [List.append_assoc, List.take_append_drop]
    rw [hcut, Nat.add_assoc, ← byteLength_append, ← byteLength_append, lineAt_append, lineBreaks,
      List.count_append]
    rfl
  rw [hstop, hline, hbytes, hline, hbreaks]

/-! ## The whole file -/

namespace LiteralPlace

variable {place : LiteralPlace} {content content' : List Char}

/-- The file in which the literal says `content`. -/
def file (place : LiteralPlace) (content : List Char) (path : String) (fallback : Convention) :
    FileContext :=
  ⟨path, place.front ++ place.literal content,
    Imports.ofText (place.front ++ place.literal content), fallback⟩

/-- The text behind the literal keeps its place. -/
theorem byteLength_upTo_eq (hbytes : byteLength content = byteLength content') :
    byteLength (place.front ++ place.quote :: (content ++ [place.quote])) =
      byteLength (place.front ++ place.quote :: (content' ++ [place.quote])) := by
  simp only [byteLength_append, byteLength_cons, hbytes]

section Replaced

variable (h : IsContent place.quote content) (h' : IsContent place.quote content')
  (hbytes : byteLength content = byteLength content') (path : String) (fallback : Convention)

include h h' hbytes

theorem imports_eq :
    (place.file content path fallback).imports = (place.file content' path fallback).imports :=
  Imports.ofText_eq_of_literals place.isQuote place.front place.tail h.line h'.line hbytes

/-- A class in front of the literal. -/
theorem declared_findings_front (houtside : place.OutsideHeaders content)
    (houtside' : place.OutsideHeaders content') (hmute : place.Mute content)
    (hmute' : place.Mute content') {found : Occurrence ClassHead}
    (hfound : found ∈ classHeads place.front) :
    ((place.file content path fallback).findings
        (found.extend (place.literal content))).declared =
      ((place.file content' path fallback).findings
        (found.extend (place.literal content'))).declared := by
  obtain ⟨left, hleft, hcode⟩ := houtside.headers found hfound
  obtain ⟨left', hleft', -⟩ := houtside'.headers found hfound
  obtain ⟨hpart, hfront⟩ := front_read_append_quote place.isQuote hleft
  obtain ⟨hpart', hfront'⟩ := front_read_append_quote place.isQuote hleft'
  obtain rfl : left = left' := Option.some.inj (hpart.symm.trans hpart')
  refine FileContext.declared_findings_congr (imports_eq h h' hbytes path fallback) rfl rfl ?_ ?_ ?_
  · have hline (content : List Char) : (place.file content path fallback).locate found.stop =
        ⟨path, lineAt place.front found.stop⟩ :=
      congrArg (Location.mk path) (lineAt_of_mem_classHeads hfound _)
    exact (hline content).trans (hline content').symm
  · exact (hfront _).trans (hfront' _).symm
  · simp only [Occurrence.extend]
    intro himplicit
    have himplicit' : (Header.read found.stop (found.rest ++ place.literal content')).shape =
        .implicit := by
      have hshape := congrArg Header.shape ((hfront found.stop).trans (hfront' found.stop).symm)
      exact hshape.symm.trans himplicit
    rw [Header.body_read_eq himplicit, Header.body_read_eq himplicit', hleft, hleft']
    exact any_bodyText?_literal place.isQuote hcode h h' hbytes hmute.constructors
      hmute'.constructors

/-- A class behind the literal. -/
theorem declared_findings_behind {previous : Option Char} {found : Occurrence ClassHead}
    (hfound : found ∈ occurrencesFrom classHead? 0
      (byteLength (place.front ++ place.quote :: (content ++ [place.quote]))) previous place.tail) :
    ((place.file content path fallback).findings found).declared =
      ((place.file content' path fallback).findings found).declared := by
  refine FileContext.declared_findings_congr (imports_eq h h' hbytes path fallback) rfl rfl ?_ rfl
    fun _ => rfl
  have htext (content : List Char) : place.front ++ place.literal content =
      place.front ++ place.quote :: (content ++ [place.quote]) ++ place.tail := by
    simp [literal]
  have hbreaks : lineBreaks (place.front ++ place.quote :: (content ++ [place.quote])) =
      lineBreaks (place.front ++ place.quote :: (content' ++ [place.quote])) := by
    simp only [lineBreaks, List.count_append, List.count_cons, List.count_eq_zero.mpr h.line,
      List.count_eq_zero.mpr h'.line]
  refine congrArg (Location.mk path) ?_
  simp only [file, htext]
  exact lineAt_of_mem_occurrencesFrom hfound (byteLength_upTo_eq hbytes) hbreaks

/-- Two literals that hold nothing that looks like code can say anything of the same length: the
file declares the same. -/
theorem declared_read_text (houtside : place.OutsideHeaders content)
    (houtside' : place.OutsideHeaders content') (hmute : place.Mute content)
    (hmute' : place.Mute content') :
    (FileFindings.read path (place.text content) fallback).declared =
      (FileFindings.read path (place.text content') fallback).declared := by
  unfold FileFindings.read
  simp only [blankComments_text h, blankComments_text h']
  refine FileFindings.declared_ofFindings_congr rfl (imports_eq h h' hbytes path fallback) ?_
  rw [classHeads_literal houtside hmute, classHeads_literal houtside' hmute']
  simp only [List.filter_append, List.map_append, List.filter_map, List.map_map]
  congr 1
  · refine List.map_congr_left fun found hfound => ?_
    exact declared_findings_front h h' hbytes path fallback houtside houtside' hmute hmute'
      (List.mem_of_mem_filter hfound)
  · rw [← byteLength_upTo_eq hbytes]
    refine List.map_congr_left fun found hfound => ?_
    exact declared_findings_behind h h' hbytes path fallback (List.mem_of_mem_filter hfound)

end Replaced

end LiteralPlace

/-! ## Literals that look like code -/

/-- A literal in the body of a class. -/
def helpPlace : LiteralPlace where
  before := "package app\n\n@GenDsl\nclass Card \x7b\n    val help = ".toList
  quote := '"'
  after := "\n\x7d\n".toList
  front := "package app\n\n@GenDsl\nclass Card \x7b\n    val help = ".toList
  isQuote := by decide
  masked := by decide +kernel
  code := by decide +kernel

def readHelp (content : String) : FileFindings :=
  FileFindings.read "app/Card.kt" (helpPlace.text content.toList) .markToInject

theorem outsideHeaders_helpPlace {content : List Char}
    (hheads : ComesTo classHead? 0 none helpPlace.front (helpPlace.literal content)) :
    helpPlace.OutsideHeaders content := by
  refine ⟨hheads, fun found hfound => ⟨"\x7b\n    val help = ".toList, ?_, by decide +kernel⟩⟩
  have hrest : ∀ found ∈ classHeads helpPlace.front,
      found.rest = " \x7b\n    val help = ".toList := by decide +kernel
  rw [hrest found hfound]
  rfl

theorem declared_readHelp :
    (readHelp "ask the shop for its prices").declared =
      (readHelp "see the back of the package").declared :=
  LiteralPlace.declared_read_text (isContent_of_plain helpPlace.isQuote (by decide))
    (isContent_of_plain helpPlace.isQuote (by decide)) (by decide) "app/Card.kt" .markToInject
    (outsideHeaders_helpPlace (by decide +kernel)) (outsideHeaders_helpPlace (by decide +kernel))
    (.of_freeOf (by decide) (by decide) (by decide))
    (.of_freeOf (by decide) (by decide) (by decide))

/-- Plain words, 27 bytes of them each. -/
def spokenWords : List String :=
  ["ask the shop for its prices", "use the constructor (title)", "a class of its own entirely",
    "show a @GenDsl class Basket"]

/-- A literal that speaks of a constructor refuses the class around it. One that speaks of a class
enters it into the hierarchy, and declares it behind a marker. -/
theorem readHelp_spokenWords :
    (∀ content ∈ spokenWords,
      (∀ c ∈ content.toList, isQuote c = false ∧ c ≠ '\\' ∧ c ≠ '\n') ∧
        byteLength content.toList = 27 ∧ helpPlace.OutsideHeaders content.toList) ∧
      (readHelp "ask the shop for its prices").diagnostics = [] ∧
      (readHelp "use the constructor (title)").diagnostics.map (·.message) =
        ["no primary constructor; only secondary constructors are declared"] ∧
      (readHelp "ask the shop for its prices").hierarchy.contains "app.of" = false ∧
      (readHelp "a class of its own entirely").hierarchy.contains "app.of" = true ∧
      (readHelp "ask the shop for its prices").declarations.map (·.name) = ["Card"] ∧
      (readHelp "show a @GenDsl class Basket").declarations.map (·.name) = ["Card", "Basket"] := by
  have hplain : ∀ content ∈ spokenWords,
      (∀ c ∈ content.toList, isQuote c = false ∧ c ≠ '\\' ∧ c ≠ '\n') ∧
        byteLength content.toList = 27 ∧
        ComesTo classHead? 0 none helpPlace.front (helpPlace.literal content.toList) := by
    decide +kernel
  refine ⟨fun content hcontent => ?_, by decide +kernel⟩
  obtain ⟨hchars, hbytes, hheads⟩ := hplain content hcontent
  exact ⟨hchars, hbytes, outsideHeaders_helpPlace hheads⟩

end ComponentWiring.Source

import ComponentWiring.Proofs.Source.ClassHeads
import ComponentWiring.Proofs.Source.Headers
import ComponentWiring.Proofs.Source.ImportTable
import ComponentWiring.Proofs.Source.ParameterLines

/-!
Source files that are printed and read back. A `PrintedUnit` is a file with a package line, import
lines and one marked class; `PrintedUnit.read_text` says that reading its text gives exactly the
class that was printed, and that the defaults of its parameters are found again.

The text is the same for all the readers that go over it: nothing in it is a comment, so that
blanking comments out changes nothing (`silent_text`). The import table is read off the lines at its
head (`ofText_text`), and no line of the class is taken for an import. What is left is one head and
what follows it (`classHeads_text`), and the header is read into the list of parameters and the
supertypes (`header_text`).
-/

namespace ComponentWiring.Source

open Text TypeExpr

/-! ## The table of imports -/

section Table

variable {package : List Char} {imports : List (List Char)}

/-- What holds of the table without imports and is kept by each import line holds of the table. -/
theorem importTable_induction {P : Imports → Prop}
    (hstart : P (.forPackage (String.ofList package)))
    (hkeep : ∀ table name, P table → P (table.insert (String.ofList name) none)) :
    P (importTable package imports) := by
  have hfold : ∀ table, P table → P ((imports.map fun name =>
      ImportLine.single (String.ofList name) none).foldl Imports.add table) := by
    induction imports with
    | nil => exact fun table htable => htable
    | cons name imports ih => exact fun table htable => ih _ (hkeep table name htable)
  exact hfold _ hstart

theorem package_importTable : (importTable package imports).package = String.ofList package :=
  importTable_induction (P := fun table => table.package = String.ofList package) rfl
    fun _ _ htable => htable

theorem stars_importTable : (importTable package imports).stars = [] :=
  importTable_induction (P := fun table => table.stars = []) rfl fun _ _ htable => htable

/-- Names are imported under their last parts. -/
theorem lastPart_of_imported? {name qualified : String}
    (h : (importTable package imports).imported? name = some qualified) :
    lastPart qualified = name := by
  refine importTable_induction (P := fun table => ∀ name qualified,
    table.imported? name = some qualified → lastPart qualified = name) ?_ ?_ name qualified h
  · intro name qualified hget
    cases hget
  · intro table imported htable name qualified hget
    rw [Imports.imported?, Imports.insert, Option.getD_none, Keyed.get?_insert] at hget
    split_ifs at hget with hname
    · rw [← Option.some.inj hget, hname]
    · exact htable name qualified hget

/-- Every simple name can be printed as a type and read back. -/
theorem readable_resolve {name : String} (hname : IsAsciiName name.toList) :
    Readable (importTable package imports) []
      { name := (importTable package imports).resolve name } := by
  have hdot : '.' ∉ name.toList := fun hmem => absurd (hname.2 _ hmem) (by decide)
  have hlast : lastPart ((importTable package imports).resolve name) = name :=
    Imports.lastPart_resolve hdot fun _ => lastPart_of_imported?
  refine .intro rfl ?_ ?_ (by simp)
  · rwa [hlast]
  · rw [hlast]
    rfl

end Table

/-! ## Printed files -/

/-- A source file with one marked class, as it is printed. -/
structure PrintedUnit where
  package : List Char
  imports : List (List Char)
  name : List Char
  parameters : List (PrintedParameter (importTable package imports))
  supertypes : List TypeExpr
  /-- How far the parameters are indented. -/
  indent : Nat
  package_dotted : IsDotted package
  package_free : FreeOf headWords package
  imports_dotted : ∀ imported ∈ imports, IsDotted imported
  imports_free : ∀ imported ∈ imports, FreeOf headWords imported
  name_isName : IsName name
  names_nodup : (parameters.map (·.name)).Nodup
  supertypes_readable : ∀ type ∈ supertypes, Readable (importTable package imports) [] type
  supertypes_free : ∀ type ∈ supertypes, FreeOf classWords type.render.toList

namespace PrintedUnit

/-- The lines in front of the class. -/
def headLines (u : PrintedUnit) : List (List Char) :=
  packageText u.package :: u.imports.map importText

/-- The line that opens the class. -/
def openingLine (u : PrintedUnit) : List Char :=
  "class ".toList ++ u.name ++ ['(']

/-- The line that closes the parameter list. -/
def closingLine (u : PrintedUnit) : List Char :=
  ')' :: supertypeClause u.supertypes

/-- The lines of the class. -/
def classLines (u : PrintedUnit) : List (List Char) :=
  "@GenDsl".toList :: u.openingLine :: (parameterLines u.indent u.parameters ++ [u.closingLine])

/-- The text of the file. -/
def text (u : PrintedUnit) : List Char :=
  unlines (u.headLines ++ u.classLines)

/-- What stands between the parentheses. -/
def inside (u : PrintedUnit) : List Char :=
  '\n' :: unlines (parameterLines u.indent u.parameters)

/-- What follows the name of the class. -/
def header (u : PrintedUnit) : List Char :=
  '(' :: (u.inside ++ ')' :: (supertypeClause u.supertypes ++ ['\n']))

theorem text_eq (u : PrintedUnit) :
    u.text = unlines u.headLines ++ (markedHead "GenDsl".toList u.name ++ u.header) := by
  have hclass : unlines u.classLines = markedHead "GenDsl".toList u.name ++ u.header := by
    unfold classLines openingLine closingLine header inside markedHead
    simp only [unlines_cons, unlines_append, unlines_nil, List.append_assoc, List.cons_append,
      List.nil_append]
    rfl
  rw [text, unlines_append, hclass]

/-! ## What the readers have in common -/

/-- A character of a package line or an import line. -/
def isHeadChar (c : Char) : Bool :=
  isDottedChar c || c == ' '

/-- A character of the lines around the parameters. -/
def isFrameChar (c : Char) : Bool :=
  isWordChar c || isTypeChar c || "@(): ".toList.contains c

theorem isHeadChar_of_isDotted {name word : List Char} (h : IsDotted name)
    (hword : ∀ c ∈ word, isHeadChar c = true) : ∀ c ∈ word ++ name, isHeadChar c = true :=
  List.forall_mem_append.mpr ⟨hword, fun c hc => by simp [isHeadChar, h.2 c hc]⟩

theorem isHeadChar_of_mem_headLines (u : PrintedUnit) :
    ∀ line ∈ u.headLines, ∀ c ∈ line, isHeadChar c = true := by
  unfold headLines
  refine List.forall_mem_cons.mpr ⟨?_, List.forall_mem_map.mpr fun imported himported => ?_⟩
  · unfold packageText
    exact isHeadChar_of_isDotted u.package_dotted (List.all_eq_true.mp (by decide))
  · unfold importText
    exact isHeadChar_of_isDotted (u.imports_dotted imported himported)
      (List.all_eq_true.mp (by decide))

theorem isFrameChar_of_mem_openingLine (u : PrintedUnit) :
    ∀ c ∈ u.openingLine, isFrameChar c = true := by
  unfold openingLine
  refine List.forall_mem_append.mpr ⟨List.forall_mem_append.mpr ⟨?_, fun c hc => ?_⟩, ?_⟩
  · exact List.all_eq_true.mp (by decide)
  · simp [isFrameChar, u.name_isName.2 c hc]
  · exact List.forall_mem_singleton.mpr (by decide)

theorem isFrameChar_of_mem_closingLine (u : PrintedUnit) :
    ∀ c ∈ u.closingLine, isFrameChar c = true := by
  refine List.forall_mem_cons.mpr ⟨by decide, ?_⟩
  unfold supertypeClause
  split_ifs
  · simp
  · refine List.forall_mem_append.mpr ⟨List.all_eq_true.mp (by decide), fun c hc => ?_⟩
    rcases mem_callList u.supertypes_readable hc with hchar | rfl | rfl
    · simp [isFrameChar, hchar]
    · decide
    · decide

/-- There are no comments in the text. -/
theorem silent_text (u : PrintedUnit) : Silent u.text := by
  refine .unlines (List.forall_mem_append.mpr ⟨fun line hline => ?_, ?_⟩)
  · exact .of_class (by decide) (u.isHeadChar_of_mem_headLines line hline)
  · have hmarker : ∀ c ∈ "@GenDsl".toList, isFrameChar c = true :=
      List.all_eq_true.mp (by decide)
    refine List.forall_mem_cons.mpr ⟨.of_class (by decide) hmarker, ?_⟩
    refine List.forall_mem_cons.mpr ⟨?_, List.forall_mem_append.mpr ⟨?_, ?_⟩⟩
    · exact .of_class (by decide) u.isFrameChar_of_mem_openingLine
    · exact fun line hline => silent_of_mem_parameterLines hline
    · rw [List.forall_mem_singleton]
      exact .of_class (by decide) u.isFrameChar_of_mem_closingLine

theorem otherLine_classLines (u : PrintedUnit) : ∀ line ∈ u.classLines, OtherLine line := by
  have hopening : OtherLine u.openingLine := by
    refine ⟨fun hmem => ?_, rfl, ?_⟩
    · exact absurd (u.isFrameChar_of_mem_openingLine _ hmem) (by decide)
    · show String.ofList ['c', 'l', 'a', 's', 's'] ≠ "import"
      decide
  have hclosing : OtherLine u.closingLine := by
    refine ⟨fun hmem => ?_, rfl, ?_⟩
    · exact absurd (u.isFrameChar_of_mem_closingLine _ hmem) (by decide)
    · show String.ofList [] ≠ "import"
      decide
  refine List.forall_mem_cons.mpr ⟨⟨by decide, by decide, by decide⟩, ?_⟩
  refine List.forall_mem_cons.mpr ⟨hopening, List.forall_mem_append.mpr ⟨?_, ?_⟩⟩
  · exact fun line hline => otherLine_of_mem_parameterLines hline
  · rwa [List.forall_mem_singleton]

/-! ## What each reader finds -/

theorem ofText_text (u : PrintedUnit) :
    Imports.ofText u.text = importTable u.package u.imports := by
  have hfirst : ¬"as".toList <+: trimStart (unlines u.classLines) := by
    rintro ⟨more, hmore⟩
    cases hmore
  exact ofText_unlines u.package_dotted u.imports_dotted u.otherLine_classLines hfirst

/-- What follows the name of the class has no other class in it. -/
theorem wordFree_header (u : PrintedUnit) : FreeOf classWords u.header := by
  have hwords : "" ∉ classWords := by decide
  have hlines : FreeOf classWords (unlines (parameterLines u.indent u.parameters)) :=
    freeOf_unlines hwords fun line hline => wordFree_of_mem_parameterLines hline
  have hinside : FreeOf classWords u.inside := (freeOf_cons (by decide)).mpr ⟨hwords, hlines⟩
  have hclause := freeOf_supertypeClause hwords u.supertypes_free
  have hend : FreeOf classWords (supertypeClause u.supertypes ++ ['\n']) :=
    (freeOf_append_cons (by decide)).mpr ⟨hclause, freeOf_nil.mpr hwords⟩
  exact (freeOf_cons (by decide)).mpr
    ⟨hwords, (freeOf_append_cons (by decide)).mpr ⟨hinside, hend⟩⟩

/-- In front of the class there is none. -/
theorem wordFree_headLines (u : PrintedUnit) : FreeOf headWords (unlines u.headLines) := by
  have hword : FreeOf headWords "package".toList ∧ FreeOf headWords "import".toList := by decide
  have hpackage : FreeOf headWords (packageText u.package) := by
    have h := (freeOf_append_cons (c := ' ') (by decide)).mpr ⟨hword.1, u.package_free⟩
    exact h
  have himports : ∀ imported ∈ u.imports, FreeOf headWords (importText imported) := by
    intro imported himported
    have h := (freeOf_append_cons (c := ' ') (by decide)).mpr
      ⟨hword.2, u.imports_free imported himported⟩
    exact h
  exact freeOf_unlines (by decide)
    (List.forall_mem_cons.mpr ⟨hpackage, List.forall_mem_map.mpr himports⟩)

/-- The head of the class. -/
def head (u : PrintedUnit) : ClassHead :=
  ⟨["@GenDsl".toList], [], .ofClass, String.ofList u.name⟩

/-- Where the name of the class ends. -/
def headEnd (u : PrintedUnit) : Nat :=
  byteLength (unlines u.headLines ++ markedHead "GenDsl".toList u.name)

theorem classHeads_text (u : PrintedUnit) :
    classHeads u.text = [⟨u.head, u.headEnd, u.header⟩] := by
  have hlast : ∃ c ∈ (unlines u.headLines).getLast?, precedesHead c = true :=
    ⟨'\n', getLast?_unlines (List.cons_ne_nil _ _), by decide⟩
  have hat : '@' ∉ unlines u.headLines := by
    intro hmem
    rcases mem_unlines hmem with heq | ⟨line, hline, hc⟩
    · exact absurd heq (by decide)
    · exact absurd (u.isHeadChar_of_mem_headLines line hline _ hc) (by decide)
  rw [text_eq]
  exact classHeads_eq_singleton hlast hat u.wordFree_headLines (by decide) u.name_isName
    (by simp [header, show isWordChar '(' = false by decide]) u.wordFree_header

theorem header_text (u : PrintedUnit) :
    Header.read u.headEnd u.header =
      { shape := .primary ⟨u.headEnd + 1, u.inside⟩ .everywhere
        supertypes := u.supertypes.map fun type => type.render.toList } := by
  have hbreak : PassesBy ['\n'] := .singleton (by decide)
  have hinside : PassesBy u.inside :=
    hbreak.append (passesBy_unlines fun line hline => passesBy_of_mem_parameterLines hline)
  exact Header.read_eq hinside u.supertypes_readable _

/-- The line of the class: that of the package, those of the imports, and that of the marker come
before it. -/
theorem lineAt_headEnd (u : PrintedUnit) : lineAt u.text u.headEnd = u.imports.length + 3 := by
  have hmarked : lineBreaks (markedHead "GenDsl".toList u.name) = 1 := by
    have hshape : markedHead "GenDsl".toList u.name = "@GenDsl\nclass ".toList ++ u.name := rfl
    have hname : '\n' ∉ u.name := fun hmem => absurd (u.name_isName.2 _ hmem) (by decide)
    rw [hshape, lineBreaks, List.count_append, List.count_eq_zero.mpr hname]
    decide
  have hhead : lineBreaks (unlines u.headLines) = u.imports.length + 1 := by
    have hbreak : ∀ line ∈ u.headLines, '\n' ∉ line := fun line hline hmem =>
      absurd (u.isHeadChar_of_mem_headLines line hline _ hmem) (by decide)
    rw [lineBreaks_unlines hbreak, headLines, List.length_cons, List.length_map]
  rw [text_eq, ← List.append_assoc, headEnd, lineAt_append]
  simp only [lineBreaks, List.count_append] at hmarked hhead ⊢
  rw [hmarked, hhead]

/-! ## The whole file -/

/-- The declaration that is read. -/
def declaration (u : PrintedUnit) (path : String) (fallback : Convention) : Declaration :=
  { name := String.ofList u.name
    package := String.ofList u.package
    parameters := u.parameters.map (·.parameter (conventionOf u.parameters fallback))
    supertypes := u.supertypes
    location := ⟨path, u.imports.length + 3⟩ }

/-- What the file is when it is read. -/
def context (u : PrintedUnit) (path : String) (fallback : Convention) : FileContext :=
  ⟨path, u.text, importTable u.package u.imports, fallback⟩

theorem constructorParameters_text (u : PrintedUnit) (path : String) (fallback : Convention)
    (offset : Nat) :
    (u.context path fallback).constructorParameters u.head
        { shape := .primary ⟨offset, u.inside⟩ .everywhere
          supertypes := u.supertypes.map fun type => type.render.toList } =
      .ok (u.parameters.map (·.parameter (conventionOf u.parameters fallback))) := by
  have hread := readParameters_lines u.indent u.parameters fallback
  have hkind : u.head.kind = .plainClass := rfl
  have hopen : (u.head.has "abstract" || u.head.has "sealed") = false := rfl
  unfold FileContext.constructorParameters
  rw [if_neg (by simp [hkind]), if_neg (by simp [hopen])]
  simp only [context, inside, hread]
  rfl

/-- None of the parameters is a property. -/
theorem constructorProperties_text (u : PrintedUnit) (path : String) (fallback : Convention)
    (offset : Nat) :
    (u.context path fallback).constructorProperties (String.ofList u.name) ⟨offset, u.inside⟩ =
      [] := by
  refine List.filterMap_eq_nil_iff.mpr fun ⟨part, place⟩ hmem => ?_
  have hpart : part ∈ parameterParts u.inside :=
    mem_parameterParts_of_mem_parametersWithOffsets hmem
  rw [inside, parameterParts_lines] at hpart
  obtain ⟨p, -, rfl⟩ := List.mem_map.mp hpart
  simp only [p.parameterText?_text]
  rfl

theorem findings_text (u : PrintedUnit) (path : String) (fallback : Convention) :
    (u.context path fallback).findings ⟨u.head, u.headEnd, u.header⟩ =
      { qualifiedName := qualify (String.ofList u.package) (String.ofList u.name)
        supertypes := u.supertypes
        properties := []
        outcome := some (.ok (u.declaration path fallback)) } := by
  have hsupertypes : (u.supertypes.map fun type => type.render.toList).map
      (readType (importTable u.package u.imports) []) = u.supertypes := by
    rw [List.map_map]
    refine (List.map_congr_left fun type htype => ?_).trans (List.map_id' _)
    exact readType_render (u.supertypes_readable type htype)
  have hmarked : carriesMarker u.head.annotations classMarker = true := by
    have hhead : carriesMarker ["@GenDsl".toList] classMarker = true := by decide +kernel
    exact hhead
  have hlocation : (u.context path fallback).locate u.headEnd = ⟨path, u.imports.length + 3⟩ :=
    congrArg (Location.mk path) u.lineAt_headEnd
  have himports : (u.context path fallback).imports = importTable u.package u.imports := rfl
  have hname : u.head.name = String.ofList u.name := rfl
  unfold FileContext.findings
  simp only [header_text, constructorParameters_text, hmarked, hlocation, himports, hname,
    package_importTable, stars_importTable, hsupertypes, constructorProperties_text,
    List.append_nil, if_true]
  rfl

/-- Reading a printed file gives the class that was printed, and nothing else. -/
theorem read_text (u : PrintedUnit) (path : String) (fallback : Convention) :
    FileFindings.read path u.text fallback =
      { path
        package := String.ofList u.package
        declarations := [u.declaration path fallback]
        hierarchy := ({} : ClassHierarchy).insert
          (qualify (String.ofList u.package) (String.ofList u.name)) u.supertypes [] } := by
  have hfindings := u.findings_text path fallback
  have hcompanion : ([⟨u.head, u.headEnd, u.header⟩] : List (Occurrence ClassHead)).filter
      (fun found => !found.value.has "companion") = [⟨u.head, u.headEnd, u.header⟩] := rfl
  unfold context at hfindings
  rw [FileFindings.read, u.silent_text.blankComments_eq, ofText_text, classHeads_text, hcompanion,
    List.map_singleton, hfindings, FileFindings.ofFindings, package_importTable,
    stars_importTable]
  rfl

theorem constructorStretch?_text (u : PrintedUnit) :
    constructorStretch? u.text (String.ofList u.name) = some ⟨u.headEnd + 1, u.inside⟩ := by
  rw [constructorStretch?, classHeads_text]
  simp only [List.findSome?_cons, header_text]
  rw [if_pos (show u.head.name = String.ofList u.name from rfl)]

theorem defaultExpressions_text (u : PrintedUnit) :
    defaultExpressions (String.ofList u.name) u.text =
      Keyed.ofList (u.parameters.filterMap fun p =>
        p.default?.map fun d => (String.ofList p.name, String.ofList d)) := by
  rw [defaultExpressions, u.silent_text.blankComments_eq, constructorStretch?_text]
  exact defaultsOf_lines u.indent u.parameters

/-- The table of defaults holds what was printed behind each name. -/
theorem get?_defaultExpressions_text (u : PrintedUnit) (key value : String) :
    (defaultExpressions (String.ofList u.name) u.text).get? key = some value ↔
      ∃ p ∈ u.parameters, ∃ d ∈ p.default?, String.ofList p.name = key ∧
        String.ofList d = value := by
  rw [defaultExpressions_text]
  have hentries : ∀ k v, (k, v) ∈ u.parameters.filterMap (fun p =>
      p.default?.map fun d => (String.ofList p.name, String.ofList d)) ↔
        ∃ p ∈ u.parameters, ∃ d ∈ p.default?, String.ofList p.name = k ∧ String.ofList d = v := by
    intro k v
    simp only [List.mem_filterMap, Option.map_eq_some_iff, Prod.mk.injEq, Option.mem_def]
  constructor
  · exact fun h => (hentries key value).mp (Keyed.mem_of_get?_ofList h)
  · intro h
    obtain ⟨found, hfound⟩ := Option.isSome_iff_exists.mp
      (Keyed.contains_ofList_of_mem ((hentries key value).mpr h))
    obtain ⟨p, hp, d, hd, hkey, rfl⟩ := h
    obtain ⟨q, hq, e, he, hkey', rfl⟩ := (hentries key found).mp (Keyed.mem_of_get?_ofList hfound)
    have hname : q.name = p.name := by
      rw [← String.toList_ofList (l := q.name), hkey', ← hkey, String.toList_ofList]
    obtain rfl := List.inj_on_of_nodup_map u.names_nodup hq hp hname
    rw [hfound, Option.mem_unique he hd]

/-- A printed file is read back: reading it gives the class that was printed and nothing else, and
the defaults of its parameters are found as they were printed. -/
theorem read_back (u : PrintedUnit) (path : String) (fallback : Convention) :
    FileFindings.read path u.text fallback =
        { path
          package := String.ofList u.package
          declarations := [u.declaration path fallback]
          hierarchy := ({} : ClassHierarchy).insert
            (qualify (String.ofList u.package) (String.ofList u.name)) u.supertypes [] } ∧
      ∀ key value, (defaultExpressions (String.ofList u.name) u.text).get? key = some value ↔
        ∃ p ∈ u.parameters, ∃ d ∈ p.default?, String.ofList p.name = key ∧
          String.ofList d = value :=
  ⟨u.read_text path fallback, u.get?_defaultExpressions_text⟩

end PrintedUnit

/-- A file with an injected parameter, and a default with brackets and commas in literals. -/
def panelUnit : PrintedUnit where
  package := "app.ui".toList
  imports := ["lib.Widget".toList, "lib.Store".toList]
  name := "Panel".toList
  parameters := [
    { marked := true
      name := "store".toList
      type := { name := "lib.Store", arguments := [{ name := "kotlin.Int" }], nullable := true }
      default? := none
      name_isName := by decide
      name_free := by decide
      type_readable := .intro rfl (by decide) (by decide +kernel)
        (List.forall_mem_singleton.mpr (readable_resolve (show IsAsciiName "Int".toList by decide)))
      type_free := by decide
      default_plain := by simp },
    { marked := false
      name := "title".toList
      type := { name := "kotlin.String" }
      default? := some "join(\"(\", \", \")".toList
      name_isName := by decide
      name_free := by decide
      type_readable := readable_resolve (show IsAsciiName "String".toList by decide)
      type_free := by decide
      default_plain := by
        rintro _ ⟨⟩
        refine ⟨by decide, by decide, by decide, by decide, by decide, ?_, by decide⟩
        rintro c ⟨⟩
        rfl }]
  supertypes := [{ name := "lib.Widget" }, { name := "app.ui.Closeable" }]
  indent := 4
  package_dotted := by decide
  package_free := by decide
  imports_dotted := by decide
  imports_free := by decide
  name_isName := by decide
  names_nodup := by decide
  supertypes_readable := by
    rw [List.forall_mem_cons, List.forall_mem_singleton]
    exact ⟨readable_resolve (show IsAsciiName "Widget".toList by decide),
      readable_resolve (show IsAsciiName "Closeable".toList by decide)⟩
  supertypes_free := by decide +kernel

example : panelUnit.text = unlines (List.map String.toList [
    "package app.ui",
    "import lib.Widget",
    "import lib.Store",
    "@GenDsl",
    "class Panel(",
    "    @GenDslInject store: Store<Int>?,",
    "    title: String = join(\"(\", \", \")",
    ") : Widget(), Closeable()"]) := by
  decide +kernel

end ComponentWiring.Source

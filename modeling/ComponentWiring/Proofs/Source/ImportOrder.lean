import ComponentWiring.Proofs.Source.StarOrder
import ComponentWiring.Proofs.Source.WrittenImports

/-!
The order of the import lines at the start of a source file. Lines in another order make the same
table, apart from the order of star imports, as long as no two of them explain the same name
(`starPerm_foldl_of_perm`); and they take the same room and the same number of lines, so that what
stands behind them stays in its place (`lineAt_append_of_le`). So two such files declare the same
(`Fits.starPerm_read`).
-/

namespace ComponentWiring

open Text Source TypeExpr

/-! ## Places behind a text -/

namespace Text

theorem splitAtByte_append_of_le (as bs : List Char) (n : Nat) :
    splitAtByte (byteLength as + n) (as ++ bs) =
      (splitAtByte n bs).map fun (before, after) => (as ++ before, after) := by
  induction as with
  | nil => simp
  | cons a as ih =>
    have hpos := a.utf8Size_pos
    obtain ⟨m, hm⟩ : ∃ m, byteLength (a :: as) + n = m + 1 :=
      ⟨byteLength (a :: as) + n - 1, by simp only [byteLength_cons]; omega⟩
    rw [byteLength_cons] at hm
    have hsub : m + 1 - a.utf8Size = byteLength as + n := by omega
    rw [byteLength_cons, hm, List.cons_append, splitAtByte, if_pos (by omega), hsub, ih,
      Option.map_map]
    rfl

/-- Behind texts of the same length with the same number of lines the lines are the same. -/
theorem lineAt_append_of_le {as as' : List Char} (hlength : byteLength as' = byteLength as)
    (hbreaks : lineBreaks as' = lineBreaks as) (bs : List Char) {offset : Nat}
    (hle : byteLength as ≤ offset) : lineAt (as' ++ bs) offset = lineAt (as ++ bs) offset := by
  obtain ⟨n, rfl⟩ := Nat.exists_eq_add_of_le hle
  have hsplit' : splitAtByte (byteLength as + n) (as' ++ bs) =
      (splitAtByte n bs).map fun (before, after) => (as' ++ before, after) :=
    hlength ▸ splitAtByte_append_of_le as' bs n
  rw [lineAt, lineAt, hsplit', splitAtByte_append_of_le]
  cases splitAtByte n bs with
  | none => rfl
  | some parts =>
    simp only [Option.map_some, lineBreaks, List.count_append] at hbreaks ⊢
    rw [hbreaks]

theorem byteLength_eq_of_perm {as bs : List Char} (h : as.Perm bs) :
    byteLength as = byteLength bs := by
  induction h with
  | nil => rfl
  | cons a _ ih => rw [byteLength_cons, byteLength_cons, ih]
  | swap a b as => simp only [byteLength_cons]; omega
  | trans _ _ ih ih' => rw [ih, ih']

/-- An occurrence ends behind the place from which on one looks for it. -/
theorem le_stop_of_mem_occurrencesFrom {α : Type} {reader : ReaderAt α} {cs : List Char}
    {skip offset : Nat} {previous : Option Char} {found : Occurrence α}
    (h : found ∈ occurrencesFrom reader skip offset previous cs) : offset ≤ found.stop := by
  induction cs generalizing skip offset previous with
  | nil => cases skip <;> cases h
  | cons c cs ih =>
    cases skip with
    | succ skip => exact (Nat.le_add_right _ _).trans (ih h)
    | zero =>
      rw [occurrencesFrom] at h
      split at h
      · rcases List.mem_cons.mp h with rfl | h
        · exact Nat.le_add_right _ _
        · exact (Nat.le_add_right _ _).trans (ih h)
      · exact (Nat.le_add_right _ _).trans (ih h)

end Text

namespace Source

/-! ## The table -/

namespace Imports.StarPerm

variable {table table' : Imports}

theorem refl (table : Imports) : table.StarPerm table :=
  ⟨rfl, rfl, .refl _⟩

theorem of_eq (h : table = table') : table.StarPerm table' :=
  h ▸ .refl table

theorem trans {table'' : Imports} (h : table.StarPerm table') (h' : table'.StarPerm table'') :
    table.StarPerm table'' :=
  ⟨h'.package.trans h.package, h'.aliases.trans h.aliases, h.stars.trans h'.stars⟩

theorem add (h : table.StarPerm table') (line : ImportLine) :
    (table.add line).StarPerm (table'.add line) := by
  cases line with
  | single qualified givenName =>
    exact ⟨h.package, by simp only [Imports.add, Imports.insert, h.aliases], h.stars⟩
  | star package =>
    have hcontains : table'.stars.contains package = table.stars.contains package :=
      Bool.eq_iff_iff.mpr (by simp only [List.contains_iff_mem, h.stars.mem_iff])
    simp only [Imports.add, Imports.insertStar, hcontains]
    split
    · exact h
    · exact ⟨h.package, h.aliases, h.stars.append_right _⟩

theorem foldl_add (h : table.StarPerm table') (lines : List ImportLine) :
    (lines.foldl Imports.add table).StarPerm (lines.foldl Imports.add table') := by
  induction lines generalizing table table' with
  | nil => exact h
  | cons line lines ih => exact ih (h.add line)

end Imports.StarPerm

namespace Imports

variable {lines lines' : List ImportLine}

theorem insert_insertStar (table : Imports) (qualified : String) (givenName : Option String)
    (package : String) : (table.insertStar package).insert qualified givenName =
      (table.insert qualified givenName).insertStar package := by
  unfold insertStar insert
  cases table.stars.contains package <;> rfl

theorem starPerm_insertStar_insertStar (table : Imports) (package package' : String) :
    ((table.insertStar package).insertStar package').StarPerm
      ((table.insertStar package').insertStar package) := by
  by_cases heq : package = package'
  · exact heq ▸ .refl _
  · have hne : package' ≠ package := Ne.symm heq
    by_cases hmem : package ∈ table.stars <;> by_cases hmem' : package' ∈ table.stars <;>
      simp [insertStar, hmem, hmem', heq, hne, StarPerm.refl]
    exact ⟨rfl, rfl, (List.Perm.swap _ _ _).append_left _⟩

/-- Two lines that do not explain the same name can be exchanged. -/
theorem starPerm_add_add (table : Imports) {line line' : ImportLine}
    (h : ∀ name ∈ line.name?, name ∉ line'.name?) :
    ((table.add line).add line').StarPerm ((table.add line').add line) := by
  cases line with
  | single qualified givenName =>
    cases line' with
    | single qualified' givenName' =>
      refine ⟨rfl, Keyed.ext_get? fun key => ?_, .refl _⟩
      have hne : givenName'.getD (lastPart qualified') ≠ givenName.getD (lastPart qualified) :=
        fun heq => h _ rfl (congrArg some heq)
      simp only [add, insert, Keyed.get?_insert]
      split_ifs with hfirst hsecond
      · exact absurd (hsecond.trans hfirst.symm) hne
      · rfl
      · rfl
      · rfl
    | star package => exact .of_eq (insert_insertStar table qualified givenName package).symm
  | star package =>
    cases line' with
    | single qualified givenName =>
      exact .of_eq (insert_insertStar table qualified givenName package)
    | star package' => exact starPerm_insertStar_insertStar table package package'

/-- The order of lines that explain different names does not matter. -/
theorem starPerm_foldl_of_perm (hperm : lines.Perm lines')
    (hnames : (lines.filterMap ImportLine.name?).Nodup) (table : Imports) :
    (lines.foldl add table).StarPerm (lines'.foldl add table) := by
  induction hperm generalizing table with
  | nil => exact .refl _
  | cons line _ ih =>
    refine ih (hnames.sublist ?_) _
    exact (List.sublist_cons_self _ _).filterMap _
  | swap line line' lines =>
    -- the lines behind are recorded in tables that already differ in the order of stars
    refine (starPerm_add_add table fun name hname hname' => ?_).foldl_add lines
    rw [List.filterMap_cons_some hname, List.filterMap_cons_some hname'] at hnames
    simp at hnames
  | trans hfirst _ ih ih' =>
    exact (ih hnames table).trans (ih' ((hfirst.filterMap _).nodup_iff.mp hnames) table)

end Imports

/-! ## Files -/

theorem declaredPackage_eq (cs : List Char) : declaredPackage cs =
    ((((occurrences (atLineStart packageLine?) cs).map (·.value)).head?.map String.ofList).getD
      "") := by
  unfold declaredPackage
  cases occurrences (atLineStart packageLine?) cs <;> rfl

namespace WrittenUnit

variable {u : WrittenUnit} {imports : List WrittenImport}

/-- The file with other import lines. -/
def withImports (u : WrittenUnit) (imports : List WrittenImport) : WrittenUnit :=
  { u with imports }

theorem front_perm (hperm : u.imports.Perm imports) :
    u.front.Perm (u.withImports imports).front :=
  ((hperm.map WrittenImport.text).flatMap_right _).append_left _

namespace Fits

theorem withImports (h : u.Fits) (hperm : u.imports.Perm imports) :
    (u.withImports imports).Fits where
  package := h.package
  imports i hi := h.imports i (hperm.mem_iff.mpr hi)
  names := (hperm.filterMap _).nodup_iff.mp h.names
  further := h.further

/-- The table of the file is the same, apart from the order of star imports. -/
theorem starPerm_ofText (h : u.Fits) (hne : u.imports ≠ []) (hperm : u.imports.Perm imports) :
    (Imports.ofText (blankComments u.text)).StarPerm
      (Imports.ofText (blankComments (u.withImports imports).text)) := by
  have h' := h.withImports hperm
  have hne' : imports ≠ [] := fun hnil => hne (hnil ▸ hperm).eq_nil
  have hlength := byteLength_eq_of_perm (front_perm hperm)
  have hpackage : declaredPackage (blankComments (u.withImports imports).text) =
      declaredPackage (blankComments u.text) := by
    rw [declaredPackage_eq, declaredPackage_eq, h.packageLines_masked hne,
      h'.packageLines_masked hne', ← hlength]
    rfl
  have hnames : ((u.imports.map WrittenImport.line).filterMap ImportLine.name?).Nodup := by
    rw [List.filterMap_map]
    exact h.names
  rw [Imports.ofText, Imports.ofText, hpackage, h.importLines_masked hne,
    h'.importLines_masked hne', ← hlength, List.foldl_append, List.foldl_append]
  exact (Imports.starPerm_foldl_of_perm (hperm.map _) hnames _).foldl_add _

/-- Its class heads stay where they are. -/
theorem classHeads_withImports (h : u.Fits) (hne : u.imports ≠ [])
    (hperm : u.imports.Perm imports) :
    classHeads (blankComments (u.withImports imports).text) =
      classHeads (blankComments u.text) := by
  have hne' : imports ≠ [] := fun hnil => hne (hnil ▸ hperm).eq_nil
  rw [h.classHeads_masked hne, (h.withImports hperm).classHeads_masked hne',
    ← byteLength_eq_of_perm (front_perm hperm)]
  rfl

/-- The file declares the same, apart from the order of star imports. -/
theorem starPerm_read (h : u.Fits) (hne : u.imports ≠ []) (hperm : u.imports.Perm imports)
    (path : String) (fallback : Convention) :
    (FileFindings.read path u.text fallback).StarPerm
      (FileFindings.read path (u.withImports imports).text fallback) := by
  have h' := h.withImports hperm
  have hfront := front_perm hperm
  have htable := h.starPerm_ofText hne hperm
  have hfile : FileContext.StarPerm (byteLength u.front)
      ⟨path, blankComments u.text, Imports.ofText (blankComments u.text), fallback⟩
      ⟨path, blankComments (u.withImports imports).text,
        Imports.ofText (blankComments (u.withImports imports).text), fallback⟩ := by
    refine ⟨htable, rfl, fun offset hle => ?_⟩
    have hline := lineAt_append_of_le (byteLength_eq_of_perm hfront).symm
      (hfront.count_eq '\n').symm u.behind hle
    simp only [FileContext.locate, h.masked, h'.masked]
    exact congrArg _ hline
  refine FileFindings.starPerm_ofFindings htable ?_
  rw [h.classHeads_withImports hne hperm, h.classHeads_masked hne, List.forall₂_map_left_iff,
    List.forall₂_map_right_iff]
  exact List.forall₂_same.mpr fun found hfound =>
    hfile.findings (le_stop_of_mem_occurrencesFrom (List.mem_of_mem_filter hfound))

/-- The default expressions in the file are the same. -/
theorem defaultExpressions_eq (h : u.Fits) (hne : u.imports ≠ [])
    (hperm : u.imports.Perm imports) (name : String) :
    defaultExpressions name (u.withImports imports).text = defaultExpressions name u.text := by
  simp only [defaultExpressions, constructorStretch?, h.classHeads_withImports hne hperm]

end Fits

end WrittenUnit

end Source

end ComponentWiring

import ComponentWiring.Proofs.Pass.UnitOrder
import ComponentWiring.Proofs.Pass.WrittenClasses

/-!
Classes of one name in a file. A declaration is looked up again by name: its constructor under the
simple name, when its defaults are recovered, and its supertypes under the qualified name, in the
hierarchy. Neither name knows in which class a class is nested, so several heads of a file can
answer to it. `read_sharedNames` says which one does. For the constructor it is the first head of
the name that has a parameter list (`constructorStretch?_eq`), for the supertypes the last head of
the name (`supertypes?_read`). So a declaration finds its own constructor and its own supertypes
where no head of its name stands in the way; in `nestedCards` it finds neither.
-/

namespace ComponentWiring.Source

open Text

/-! ## The heads of a name -/

/-- The first parameter list of a class of a name. -/
def firstList? (name : String) (heads : List (Occurrence ClassHead)) : Option Stretch :=
  (heads.filter (·.value.name == name)).findSome? parameterList?

/-- The supertypes of the last class of a name. Companion objects are not classes of their own. -/
def lastSupertypes? (file : FileContext) (name : String) (heads : List (Occurrence ClassHead)) :
    Option (List TypeExpr) :=
  ((heads.filter fun head => !head.value.has "companion" && head.value.name == name).getLast?).map
    fun head => (file.findings head).supertypes

variable {path name : String} {text : List Char} {fallback : Convention} {file : FileContext}
  {d : Declaration} {before after : List (Occurrence ClassHead)} {found : Occurrence ClassHead}

theorem firstList?_append_cons {inside : Stretch} (hname : found.value.name = name)
    (hinside : parameterList? found = some inside) :
    firstList? name (before ++ found :: after) = some ((firstList? name before).getD inside) := by
  unfold firstList?
  rw [List.filter_append, List.filter_cons_of_pos (by simpa using hname), List.findSome?_append,
    List.findSome?_cons, hinside]
  cases (before.filter (·.value.name == name)).findSome? parameterList? <;> rfl

theorem lastSupertypes?_append_cons (hname : found.value.name = name)
    (hown : found.value.has "companion" = false) :
    lastSupertypes? file name (before ++ found :: after) =
      some ((lastSupertypes? file name after).getD (file.findings found).supertypes) := by
  unfold lastSupertypes?
  rw [List.filter_append, List.filter_cons_of_pos (by simp [hname, hown]), List.getLast?_append,
    List.getLast?_cons]
  cases (after.filter _).getLast? <;> rfl

/-- The constructor that is found under a name is that of the first class of the name that has a
parameter list. -/
theorem constructorStretch?_eq (masked : List Char) (name : String) :
    constructorStretch? masked name = firstList? name (classHeads masked) := by
  unfold constructorStretch? firstList?
  induction classHeads masked with
  | nil => rfl
  | cons head heads ih =>
    rw [List.findSome?_cons, ih, List.filter_cons]
    by_cases hname : head.value.name = name
    · simp only [hname, beq_self_eq_true, if_true, List.findSome?_cons]
      rfl
    · simp [hname]

/-! ## The hierarchy of a file -/

theorem qualify_inj {package name name' : String}
    (h : qualify package name = qualify package name') : name = name' := by
  unfold qualify at h
  split at h
  · exact h
  · exact String.append_right_inj _ |>.mp h

theorem qualifiedName_findings (file : FileContext) (found : Occurrence ClassHead) :
    (file.findings found).qualifiedName = qualify file.imports.package found.value.name := rfl

/-- A lookup from the end finds the last entry of a key. -/
theorem lookup_reverse_map {α β : Type} (key : α → String) (value : α → β) (xs : List α)
    (wanted : String) :
    (xs.map fun x => (key x, value x)).reverse.lookup wanted =
      ((xs.filter (key · == wanted)).getLast?).map value := by
  induction xs with
  | nil => rfl
  | cons x xs ih =>
    rw [List.map_cons, List.reverse_cons, List.lookup_append, ih, List.filter_cons]
    by_cases hkey : key x = wanted
    · simp only [hkey, beq_self_eq_true, if_true, List.getLast?_cons]
      cases (xs.filter (key · == wanted)).getLast? <;> simp
    · have hne : (wanted == key x) = false := by simpa using Ne.symm hkey
      simp [hkey, hne, List.lookup_cons, List.lookup_nil]

/-- The hierarchy of a file knows a class by the last head of its name. -/
theorem supertypes?_read (path : String) (text : List Char) (fallback : Convention)
    (name : String) :
    let file := FileContext.ofText path text fallback
    (FileFindings.read path text fallback).hierarchy.supertypes?
      (qualify file.imports.package name) = lastSupertypes? file name (classHeads file.masked) := by
  intro file
  have hread : FileFindings.read path text fallback = FileFindings.ofFindings file
    (((classHeads file.masked).filter fun found => !found.value.has "companion").map
      file.findings) := rfl
  have hkey (head : Occurrence ClassHead) :
      ((file.findings head).qualifiedName == qualify file.imports.package name) =
        (head.value.name == name) := by
    rw [qualifiedName_findings, Bool.eq_iff_iff, beq_iff_eq, beq_iff_eq]
    exact ⟨qualify_inj, congrArg _⟩
  rw [hread, ClassHierarchy.supertypes?, ClassHierarchy.find?, byName_hierarchy_ofFindings,
    Keyed.get?_ofList, lookup_reverse_map]
  simp only [List.filter_map, List.getLast?_map, Option.map_map, List.filter_filter,
    Function.comp_def, hkey, lastSupertypes?]
  simp only [Bool.and_comm]

/-- The constructor that is found for a declaration of a file, and with it the defaults, is its own
unless a class of its name that has a parameter list stands before it; the first of these is found
then. The supertypes that the hierarchy knows for it are its own unless a class of its name stands
behind it; the last of these is known then. -/
theorem read_sharedNames (path : String) (text : List Char) (fallback : Convention) :
    let file := FileContext.ofText path text fallback
    let findings := FileFindings.read path text fallback
    ∀ d ∈ findings.declarations,
      (∃ before found after, ReadAt file d before found after) ∧
      ∀ before found after, ReadAt file d before found after →
        (∀ inside, parameterList? found = some inside →
          constructorStretch? file.masked d.name =
            some ((firstList? d.name before).getD inside) ∧
          defaultExpressions d.name text =
            defaultsOf ((firstList? d.name before).getD inside).text) ∧
        findings.hierarchy.supertypes? d.qualifiedName =
          some ((lastSupertypes? file d.name after).getD d.supertypes) := by
  intro file findings d hd
  refine ⟨mem_declarations_iff.mp hd, fun before found after hat => ?_⟩
  have hname : d.name = found.value.name ∧ d.package = file.imports.package ∧
      d.supertypes = (file.findings found).supertypes := by
    obtain ⟨parameters, -, rfl⟩ := hat.exists_eq
    exact ⟨rfl, rfl, rfl⟩
  obtain ⟨hname, hpackage, hsupertypes⟩ := hname
  constructor
  · intro inside hinside
    have hstretch : constructorStretch? file.masked d.name =
        some ((firstList? d.name before).getD inside) := by
      rw [constructorStretch?_eq, hat.heads, firstList?_append_cons hname.symm hinside]
    refine ⟨hstretch, ?_⟩
    -- The defaults are read from the unmasked text, which is masked there once more.
    have hmasked : constructorStretch? (blankComments text) d.name =
        some ((firstList? d.name before).getD inside) := hstretch
    rw [defaultExpressions, hmasked]
  · rw [Declaration.qualifiedName, hpackage, supertypes?_read, hat.heads,
      lastSupertypes?_append_cons hname.symm hat.ownClass, hsupertypes]

/-- A file with three classes of one name, each nested in another class. Only the second one is
marked. -/
def nestedCards : List Char :=
  ["package app\n",
    "class First \x7b class Card(x: Int = 1) \x7d\n",
    "class Second \x7b\n",
    "  @GenDsl class Card(x: Int = 2) : Panel() \x7d\n",
    "class Third \x7b class Card : Label() \x7d\n"].flatMap String.toList

/-- The file of `nestedCards`. -/
def nestedCardsFile : FileContext :=
  .ofText "app/Cards.kt" nestedCards .markToInject

/-- What is read from the file of `nestedCards`. -/
def nestedCardsFindings : FileFindings :=
  .read "app/Cards.kt" nestedCards .markToInject

/-- The marked class is read from the fourth head, with its own parameter list and supertype. -/
theorem exists_readAt_nestedCards :
    ∃ d before found after, ReadAt nestedCardsFile d before found after ∧ d.name = "Card" ∧
      d.qualifiedName = "app.Card" ∧ d.supertypes.map (·.name) = ["app.Panel"] ∧
      (parameterList? found).map (·.text) = some "x: Int = 2".toList := by
  have hseen : declarationAt? nestedCardsFile
      (fun d => (d.name, d.qualifiedName, d.supertypes.map (·.name))) 3 =
        some ("Card", "app.Card", ["app.Panel"]) := by decide +kernel
  have hlist : (classHeads nestedCardsFile.masked)[3]?.map (fun found =>
      (parameterList? found).map (·.text)) = some (some "x: Int = 2".toList) := by decide +kernel
  obtain ⟨d, before, found, after, hat, hfound, hseen⟩ := exists_readAt_of_declarationAt? hseen
  rw [hfound, Option.map_some, Option.some.injEq] at hlist
  simp only [Prod.mk.injEq] at hseen
  exact ⟨d, before, found, after, hat, hseen.1, hseen.2.1, hseen.2.2, hlist⟩

/-- The constructor of the first class of the name and the supertype of the third are known for the
second. -/
theorem read_sharedNames_nestedCards :
    ∃ d ∈ nestedCardsFindings.declarations, ∃ before found after inside,
      ReadAt nestedCardsFile d before found after ∧ parameterList? found = some inside ∧
      (defaultsOf inside.text).entries = [("x", "2")] ∧
      (defaultExpressions d.name nestedCards).entries = [("x", "1")] ∧
      (constructorStretch? nestedCardsFile.masked d.name =
          some ((firstList? d.name before).getD inside) ∧
        defaultExpressions d.name nestedCards =
          defaultsOf ((firstList? d.name before).getD inside).text) ∧
      nestedCardsFindings.hierarchy.supertypes? d.qualifiedName =
        some ((lastSupertypes? nestedCardsFile d.name after).getD d.supertypes) := by
  obtain ⟨d, before, found, after, hat, hname, -, -, hlist⟩ := exists_readAt_nestedCards
  obtain ⟨inside, hinside, htext⟩ := Option.map_eq_some_iff.mp hlist
  have hd : d ∈ nestedCardsFindings.declarations :=
    mem_declarations_iff.mpr ⟨before, found, after, hat⟩
  obtain ⟨hconstructor, hsupertypes⟩ := (read_sharedNames "app/Cards.kt" nestedCards .markToInject
    d hd).2 before found after hat
  refine ⟨d, hd, before, found, after, inside, hat, hinside, ?_, ?_,
    hconstructor inside hinside, hsupertypes⟩
  · rw [htext]
    decide +kernel
  · rw [hname]
    decide +kernel

/-- In this file a declaration finds neither its own constructor nor its own supertypes. -/
theorem nestedCards_shadowed :
    ∃ d ∈ nestedCardsFindings.declarations, ∃ before found after inside,
      ReadAt nestedCardsFile d before found after ∧ parameterList? found = some inside ∧
      constructorStretch? nestedCardsFile.masked d.name ≠ some inside ∧
      defaultExpressions d.name nestedCards ≠ defaultsOf inside.text ∧
      nestedCardsFindings.hierarchy.supertypes? d.qualifiedName ≠ some d.supertypes := by
  obtain ⟨d, before, found, after, hat, hname, hqualified, hsupertypes, hlist⟩ :=
    exists_readAt_nestedCards
  obtain ⟨inside, hinside, htext⟩ := Option.map_eq_some_iff.mp hlist
  refine ⟨d, mem_declarations_iff.mpr ⟨before, found, after, hat⟩, before, found, after, inside,
    hat, hinside, ?_, ?_, ?_⟩
  · intro hsame
    have hother : (constructorStretch? nestedCardsFile.masked "Card").map (·.text) =
        some "x: Int = 1".toList := by decide +kernel
    rw [← hname, hsame, Option.map_some, htext] at hother
    exact absurd hother (by decide)
  · intro hsame
    have hother : (defaultExpressions "Card" nestedCards).get? "x" = some "1" := by decide +kernel
    have hself : (defaultsOf "x: Int = 2".toList).get? "x" = some "2" := by decide +kernel
    rw [← hname, hsame, htext, hself] at hother
    exact absurd hother (by decide)
  · intro hsame
    have hother : (nestedCardsFindings.hierarchy.supertypes? "app.Card").map
        (·.map (·.name)) = some ["app.Label"] := by decide +kernel
    rw [← hqualified, hsame, Option.map_some, hsupertypes] at hother
    exact absurd hother (by decide)

end ComponentWiring.Source

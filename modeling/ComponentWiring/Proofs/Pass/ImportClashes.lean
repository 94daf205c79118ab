import ComponentWiring.Proofs.Code.GeneratedScopes
import ComponentWiring.Proofs.Code.ImportBlocks
import ComponentWiring.Proofs.Pass.WrittenClasses

/-!
Names that meet in a generated file. Types are printed with their simple names there, so that two
qualified names with one simple name get in each other's way. The generator does not look for such
clashes; `artifact?_clashes` says where they can come from. A name that is written as a simple name,
and under no alias, keeps its simple name when it is resolved (`lastPart_resolve`), and two of them
with one simple name are the same. What is left are the names that the generator adds, the name of
the class itself, and names that are written with dots or under an alias; the file `cards` has a
clash of each kind.
-/

namespace ComponentWiring

open Text Source TypeExpr

/-! ## Where clashes come from -/

namespace Source

open FactoryFile ImportBlock

/-- Two qualified names with one simple name in a generated file: the first is imported alone, the
second is too, or is that of the class, or stands in the type of a parameter. -/
structure Clash (code : FileCode) (d : Declaration) (name other : String) : Prop where
  line : "import " ++ name ∈ code.imports
  alone : starPackage? name = none
  meets : ("import " ++ other ∈ code.imports ∧ starPackage? other = none) ∨
    other = d.qualifiedName ∨ ∃ p ∈ d.parameters, other ∈ p.type.typeNames
  samePart : lastPart name = lastPart other
  ne : name ≠ other

/-- A qualified name that a written type gives by more than a simple name, or under an alias. -/
def GivenOtherwise (file : FileContext) (d : Declaration) (name : String) : Prop :=
  ∃ cs, IsWrittenType file d cs ∧ ∃ written ∈ writtenNames cs,
    file.imports.resolve (String.ofList written) = name ∧
      ('.' ∈ written ∨ lastPart name ≠ String.ofList written ∧
        .single name (some (String.ofList written)) ∈ importLines file.masked)

/-- What brings two names of a generated file together that have one simple name: the generator adds
one of them, or the second is that of the class and the first is imported in its file, or one of
them is not given by its simple name. -/
inductive ClashSource (file : FileContext) (d : Declaration) (added : List String)
    (name other : String) : Prop
  | added (mem : name ∈ added ∨ other ∈ added)
  | ownName (own : other = d.qualifiedName) (givenName : Option String)
      (line : .single name givenName ∈ importLines file.masked)
  | otherwise (given : GivenOtherwise file d name ∨ GivenOtherwise file d other)

variable {path : String} {text : List Char} {fallback : Convention} {d : Declaration}
  {name other : String}

/-- The names in the types of a class are resolved from simple names, unless they are given
otherwise. -/
theorem exists_simple_of_mem_typeNames {p : Parameter}
    (hd : d ∈ (FileFindings.read path text fallback).declarations) (hp : p ∈ d.parameters)
    (hname : name ∈ p.type.typeNames) :
    let file := FileContext.ofText path text fallback
    GivenOtherwise file d name ∨
      ∃ written : String, '.' ∉ written.toList ∧ lastPart name = written ∧
        file.imports.resolve written = name := by
  intro file
  obtain ⟨cs, hcs, htype⟩ := exists_isWrittenType hd hp
  rw [htype] at hname
  obtain ⟨written, hwritten, rfl⟩ := exists_written_of_mem_typeNames hname
  by_cases hdot : '.' ∈ written
  · exact .inl ⟨cs, hcs, written, hwritten, rfl, .inl hdot⟩
  have hdot : '.' ∉ (String.ofList written).toList := by
    rwa [String.toList_ofList]
  by_cases halias : ∀ qualified, file.imports.imported? (String.ofList written) = some qualified →
      lastPart qualified = String.ofList written
  · exact .inr ⟨_, hdot, Imports.lastPart_resolve hdot halias, rfl⟩
  · push Not at halias
    obtain ⟨qualified, himported, hne⟩ := halias
    obtain ⟨givenName, hline, hgiven⟩ := Imports.exists_line_of_imported? himported
    have hresolve : file.imports.resolve (String.ofList written) = qualified :=
      Imports.resolve_of_imported? hdot himported
    cases givenName with
    | none => exact absurd hgiven hne
    | some given =>
      obtain rfl : given = String.ofList written := hgiven
      exact .inl ⟨cs, hcs, written, hwritten, rfl, .inr (by rw [hresolve]; exact ⟨hne, hline⟩)⟩

/-- The known types belong to packages. -/
theorem ne_empty_of_isKnownType {owner : String} (h : isKnownType (owner ++ "." ++ name) = true) :
    owner ≠ "" := by
  rintro rfl
  have hbases : ∀ base ∈ componentBases, base.toList.head? ≠ some '.' := by decide +kernel
  have hkinds : ∀ kind ∈ SignalKind.all, kind.bindableName.toList.head? ≠ some '.' ∧
      kind.counterpartName.toList.head? ≠ some '.' := by decide +kernel
  have hhead : ("" ++ "." ++ name).toList.head? = some '.' := by simp
  simp only [isKnownType, Bool.or_eq_true, List.contains_iff_mem, List.any_eq_true,
    beq_iff_eq] at h
  rcases h with hbase | ⟨kind, hkind, hname | hname⟩
  · exact hbases _ hbase hhead
  · exact (hkinds kind hkind).1 (hname ▸ hhead)
  · exact (hkinds kind hkind).2 (hname ▸ hhead)

/-- A name that is imported alone and has the simple name of the class comes from an import line of
the file, if it is not added. -/
theorem exists_line_of_lastPart_eq {exportable viaFactory : Bool} {mode : Mode} {written : String}
    {before after : List (Occurrence ClassHead)} {found : Occurrence ClassHead}
    (hat : ReadAt (FileContext.ofText path text fallback) d before found after)
    (hline : "import " ++ name ∈ lines (importNames d exportable viaFactory mode) d.package)
    (halone : starPackage? name = none) (himportable : isImportable name = true)
    (hdot : '.' ∉ written.toList)
    (hresolve : (FileContext.ofText path text fallback).imports.resolve written = name)
    (hown : written = d.name) (hne : name ≠ d.qualifiedName) :
    ∃ givenName, .single name givenName ∈
      importLines (FileContext.ofText path text fallback).masked := by
  obtain ⟨parameters, -, hd⟩ := hat.exists_eq
  cases himported : (FileContext.ofText path text fallback).imports.imported? written with
  | some qualified =>
    rw [Imports.resolve_of_imported? hdot himported] at hresolve
    subst hresolve
    obtain ⟨givenName, hmem, -⟩ := Imports.exists_line_of_imported? himported
    exact ⟨givenName, hmem⟩
  | none =>
    exfalso
    obtain ⟨qualified, hbuiltin, heq⟩ | ⟨star, hstar, hknown, heq⟩ | heq :=
      Imports.resolve_cases hdot himported
    · rw [← hresolve, heq, isImportable, Imports.isBuiltinName_builtin? hbuiltin] at himportable
      simp at himportable
    · have hstars : star ∈ d.starImports := by
        rw [hd]
        exact hstar
      have hpackage : packagePart? name = some star := by
        rw [← hresolve, heq]
        exact packagePart?_append hdot
      exact (of_mem_lines hline halone).2 star hpackage (mem_importNames_iff.mpr
        (.inr (.inl ⟨star, hstars, ne_empty_of_isKnownType hknown, rfl⟩)))
    · refine hne ?_
      rw [← hresolve, heq, hown, hd]
      rfl

/-- Two names with one simple name in the types of a class are the same, unless one of them is given
otherwise. -/
theorem givenOtherwise_of_lastPart_eq {p q : Parameter}
    (hd : d ∈ (FileFindings.read path text fallback).declarations)
    (hp : p ∈ d.parameters) (hname : name ∈ p.type.typeNames)
    (hq : q ∈ d.parameters) (hother : other ∈ q.type.typeNames)
    (hpart : lastPart name = lastPart other) (hne : name ≠ other) :
    let file := FileContext.ofText path text fallback
    GivenOtherwise file d name ∨ GivenOtherwise file d other := by
  intro file
  obtain hgiven | ⟨written, -, hwritten, hresolve⟩ := exists_simple_of_mem_typeNames hd hp hname
  · exact .inl hgiven
  obtain hgiven | ⟨written', -, hwritten', hresolve'⟩ := exists_simple_of_mem_typeNames hd hq hother
  · exact .inr hgiven
  refine absurd ?_ hne
  rw [← hresolve, ← hresolve', ← hwritten, ← hwritten', hpart]

/-- The recovered defaults change nothing about the import lines. -/
theorem imports_plannedCode_elim (recovered : Option (Keyed String)) (d : Declaration)
    (exportable : Bool) (mode : Mode) (policy : Policy) :
    (plannedCode (recovered.elim d d.withDefaults) exportable mode policy).imports =
      lines (importNames d exportable (hasFactory d policy) mode) d.package := by
  cases recovered with
  | none => rfl
  | some recovered =>
    show lines (importNames (d.withDefaults recovered) exportable
      (hasFactory (d.withDefaults recovered) policy) mode) d.package = _
    rw [importNames_withDefaults, hasFactory_withDefaults]

/-- A generated file prints the planned code. Two names in it that have one simple name are brought
together by the generator, by the name of the class, or by a type that is not written with its
simple name. -/
theorem artifact?_clashes {exportable : Bool} {mode : Mode} {policy : Policy} {a : Artifact}
    (recovered : Option (Keyed String))
    (hd : d ∈ (FileFindings.read path text fallback).declarations)
    (h : (recovered.elim d d.withDefaults).artifact? exportable mode policy = .ok (some a)) :
    let code := plannedCode (recovered.elim d d.withDefaults) exportable mode policy
    a = (ofCode code).laidOut ∧
      ∀ name other, Clash code d name other → ClashSource (FileContext.ofText path text fallback) d
        (addedNames exportable (hasFactory d policy) mode) name other := by
  intro code
  have hdotless : '.' ∉ d.name.toList := by
    have hname := (Declaration.wellNamed_of_artifact?_eq_ok h).name
    refine not_mem_of_isIdentifier ?_ (by decide) (by decide)
    cases recovered <;> exact hname
  refine ⟨Declaration.eq_plannedCode_of_artifact? h, fun name other hclash => ?_⟩
  obtain ⟨hline, halone, hmeets, hpart, hne⟩ := hclash
  rw [imports_plannedCode_elim] at hline hmeets
  obtain ⟨himportable, p, hp, hname⟩ | ⟨owner, -, -, hstar⟩ | hadded :=
    mem_importNames_iff.mp (of_mem_lines hline halone).1
  · have htypes (hother : ∃ q ∈ d.parameters, other ∈ q.type.typeNames) :
        ClashSource (FileContext.ofText path text fallback) d
          (addedNames exportable (hasFactory d policy) mode) name other := by
      obtain ⟨q, hq, hother⟩ := hother
      exact .otherwise (givenOtherwise_of_lastPart_eq hd hp hname hq hother hpart hne)
    rcases hmeets with ⟨hother, haloneOther⟩ | hown | hother
    · obtain ⟨-, hother⟩ | ⟨owner, -, -, hstar⟩ | hadded :=
        mem_importNames_iff.mp (of_mem_lines hother haloneOther).1
      · exact htypes hother
      · exact absurd hstar (ne_star_of_alone haloneOther owner)
      · exact .added (.inr hadded)
    · obtain hgiven | ⟨written, hdot, hwritten, hresolve⟩ :=
        exists_simple_of_mem_typeNames hd hp hname
      · exact .otherwise (.inl hgiven)
      obtain ⟨before, found, after, hat⟩ := mem_declarations_iff.mp hd
      have hsimple : written = d.name := by
        rw [← hwritten, hpart, hown]
        exact lastPart_qualify hdotless d.package
      obtain ⟨givenName, hmem⟩ := exists_line_of_lastPart_eq hat hline halone himportable hdot
        hresolve hsimple (hown ▸ hne)
      exact .ownName hown givenName hmem
    · exact htypes hother
  · exact absurd hstar (ne_star_of_alone halone owner)
  · exact .added (.inl hadded)

/-- A file with clashes. -/
def cards : List Char :=
  ["package app\n",
    "import com.vaadin.flow.component.Component\n",
    "import lib.Card\n",
    "import lib.Item as First\n",
    "import other.Item\n",
    "import other.Tab\n",
    "@GenDsl class Card(root: Component,\n",
    "  card: Card, first: First, item: Item,\n",
    "  oldTab: old.Tab, tab: Tab)\n"].flatMap String.toList

/-- The clashes in the file that is generated for the class in `cards`: with a name that is added,
with the name of the class, by an alias, and by a name with dots. -/
def cardClashes : List (String × String) :=
  [("org.springframework.stereotype.Component", "com.vaadin.flow.component.Component"),
    ("lib.Card", "app.Card"), ("lib.Item", "other.Item"), ("old.Tab", "other.Tab")]

/-- The import lines of that file. -/
def cardImports : List String :=
  ["import com.vaadin.flow.component.Component",
    "import lib.Card",
    "import lib.Item",
    "import old.Tab",
    "import org.springframework.stereotype.Component",
    "import other.Item",
    "import other.Tab"]

/-- The code that is generated for the class in `cards`. -/
def cardCode (d : Declaration) : FileCode :=
  plannedCode d false .spring .alwaysFactory

theorem exists_generated_cards : ∃ d ∈ (FileFindings.read "app/Card.kt" cards
      .markToInject).declarations,
    d.artifact? false .spring .alwaysFactory = .ok (some (ofCode (cardCode d)).laidOut) ∧
    d.qualifiedName = "app.Card" ∧ (cardCode d).imports = cardImports := by
  have hseen : declarationAt? (.ofText "app/Card.kt" cards .markToInject) (fun d =>
      (d.qualifiedName, (cardCode d).imports,
        (plan d false .spring .alwaysFactory).toOption.any Option.isSome)) 0 =
          some ("app.Card", cardImports, true) := by decide +kernel
  obtain ⟨d, before, found, after, hat, -, hseen⟩ := exists_readAt_of_declarationAt? hseen
  simp only [Prod.mk.injEq] at hseen
  exact ⟨d, mem_declarations_iff.mpr ⟨before, found, after, hat⟩,
    Declaration.artifact?_of_plan hseen.2.2, hseen.1, hseen.2.1⟩

/-- In the file that is generated for this class, `lib.Item` and `other.Item` meet because the first
is imported under an alias. -/
theorem artifact?_clashes_cards : ∃ d ∈ (FileFindings.read "app/Card.kt" cards
      .markToInject).declarations,
    d.artifact? false .spring .alwaysFactory = .ok (some (ofCode (cardCode d)).laidOut) ∧
    Clash (cardCode d) d "lib.Item" "other.Item" ∧
    ClashSource (.ofText "app/Card.kt" cards .markToInject) d
      (addedNames false (hasFactory d .alwaysFactory) .spring) "lib.Item" "other.Item" := by
  obtain ⟨d, hd, hartifact, -, himports⟩ := exists_generated_cards
  have hclash : Clash (cardCode d) d "lib.Item" "other.Item" := by
    refine ⟨?_, by decide +kernel, .inl ⟨?_, by decide +kernel⟩, by decide +kernel, by decide⟩
    · rw [himports]
      decide
    · rw [himports]
      decide
  exact ⟨d, hd, hartifact, hclash, (artifact?_clashes none hd hartifact).2 _ _ hclash⟩

/-- In the file that is generated for this class, simple names of types and of the class have two
meanings. -/
theorem cards_clash : ∃ d ∈ (FileFindings.read "app/Card.kt" cards .markToInject).declarations,
    d.artifact? false .spring .alwaysFactory = .ok (some (ofCode (cardCode d)).laidOut) ∧
      ∀ clash ∈ cardClashes, Clash (cardCode d) d clash.1 clash.2 := by
  obtain ⟨d, hd, hartifact, hqualified, himports⟩ := exists_generated_cards
  refine ⟨d, hd, hartifact, fun clash hclash => ?_⟩
  have hall : ∀ clash ∈ cardClashes, "import " ++ clash.1 ∈ cardImports ∧
      starPackage? clash.1 = none ∧
      (("import " ++ clash.2 ∈ cardImports ∧ starPackage? clash.2 = none) ∨ clash.2 = "app.Card") ∧
      lastPart clash.1 = lastPart clash.2 ∧ clash.1 ≠ clash.2 := by decide +kernel
  obtain ⟨hline, halone, hmeets, hpart, hne⟩ := hall clash hclash
  refine ⟨by rwa [himports], halone, ?_, hpart, hne⟩
  rw [himports, hqualified]
  rcases hmeets with hother | hown
  · exact .inl hother
  · exact .inr (.inl hown)

end Source

end ComponentWiring

import ComponentWiring.Proofs.Code.ContainerPlumbing
import ComponentWiring.Proofs.Source.ImportTable
import ComponentWiring.Proofs.Source.WrittenNames

/-!
The import lines of a generated file. It refers to the types of the parameters, to the packages that
its source file imports as a whole, and to a few names that are added (`mem_importNames_iff`). Every
qualified name that it refers to is `Available` in it: it has a line of its own, or its package is
imported as a whole, or it is a member of the file's own package (`available_of_mem`). A line of its
own is there only for a name that the file refers to, and only if the package is not imported as a
whole (`of_mem_lines`).
-/

namespace ComponentWiring

open Text TypeExpr

namespace ImportBlock

variable {names stars packages : List String} {package name owner : String}

theorem splitLast_starName (owner : String) :
    splitLast '.' (owner ++ ".*").toList = some (owner.toList, ['*']) := by
  rw [String.toList_append]
  exact splitLast_append (by decide) owner.toList

theorem starPackage?_eq_some : starPackage? name = some owner ↔ name = owner ++ ".*" := by
  constructor
  · intro h
    unfold starPackage? at h
    split at h
    · next package hsplit =>
      cases h
      apply String.toList_injective
      rw [splitLast_eq_some hsplit, String.toList_append, String.toList_ofList]
      rfl
    · cases h
  · rintro rfl
    rw [starPackage?, splitLast_starName]
    simp

theorem ne_star_of_alone (h : starPackage? name = none) (owner : String) :
    name ≠ owner ++ ".*" := by
  rintro rfl
  rw [starPackage?_eq_some.mpr rfl] at h
  cases h

/-- A name that can be used in a file: it is imported alone or with its package, or its package is
that of the file. -/
inductive Available (lines : List String) (package name : String) : Prop
  | alone (line : "import " ++ name ∈ lines)
  | withPackage {owner : String} (member : packagePart? name = some owner)
      (line : "import " ++ (owner ++ ".*") ∈ lines)
  | ownPackage (member : packagePart? name = some package)

theorem available_iff {block : List String} : Available block package name ↔
    "import " ++ name ∈ block ∨
      ∃ owner ∈ packagePart? name, "import " ++ (owner ++ ".*") ∈ block ∨ owner = package := by
  constructor
  · rintro (hline | ⟨hmember, hline⟩ | hmember)
    · exact .inl hline
    · exact .inr ⟨_, hmember, .inl hline⟩
    · exact .inr ⟨_, hmember, .inr rfl⟩
  · rintro (hline | ⟨owner, hmember, hline | rfl⟩)
    · exact .alone hline
    · exact .withPackage hmember hline
    · exact .ownPackage hmember

instance {block : List String} : Decidable (Available block package name) :=
  decidable_of_iff _ available_iff.symm

theorem mem_lines_iff : "import " ++ name ∈ lines names package ↔
    name ∈ names ∧ isNeeded (names.filterMap starPackage?) package name = true := by
  simp only [lines, List.mem_map, List.mem_filter]
  constructor
  · rintro ⟨found, hfound, heq⟩
    rwa [(String.append_right_inj _).mp heq] at hfound
  · exact fun h => ⟨name, h, rfl⟩

theorem isNeeded_starName : isNeeded stars package (owner ++ ".*") = (owner != package) := by
  rw [isNeeded, splitLast_starName]
  simp

/-- Every qualified name that a file refers to can be used in it. -/
theorem available_of_mem (hname : name ∈ names) (hdot : '.' ∈ name.toList) :
    Available (lines names package) package name := by
  obtain ⟨before, member, hsplit⟩ := exists_splitLast_of_mem hdot
  have hmember : packagePart? name = some (String.ofList before) := by
    rw [packagePart?, hsplit]
    rfl
  by_cases hown : String.ofList before = package
  · exact .ownPackage (hown ▸ hmember)
  by_cases hstar : String.ofList before ∈ names.filterMap starPackage?
  · refine .withPackage hmember (mem_lines_iff.mpr ⟨?_, ?_⟩)
    · obtain ⟨starName, hmem, hsome⟩ := List.mem_filterMap.mp hstar
      exact starPackage?_eq_some.mp hsome ▸ hmem
    · rw [isNeeded_starName]
      simpa using hown
  · refine .alone (mem_lines_iff.mpr ⟨hname, ?_⟩)
    rw [isNeeded, hsplit]
    simp [hown, hstar]

/-- A name that is imported alone is one that the file refers to, and its package is not imported as
a whole. -/
theorem of_mem_lines (hline : "import " ++ name ∈ lines names package)
    (halone : starPackage? name = none) :
    name ∈ names ∧ ∀ owner, packagePart? name = some owner → owner ++ ".*" ∉ names := by
  obtain ⟨hname, hneeded⟩ := mem_lines_iff.mp hline
  refine ⟨hname, fun owner howner hstar => ?_⟩
  have hstars : owner ∈ names.filterMap starPackage? :=
    List.mem_filterMap.mpr ⟨_, hstar, starPackage?_eq_some.mpr rfl⟩
  obtain ⟨⟨before, member⟩, hsplit, rfl⟩ := Option.map_eq_some_iff.mp howner
  have hmember : member ≠ ['*'] := by
    rintro rfl
    rw [starPackage?, hsplit] at halone
    cases halone
  simp only [isNeeded, hsplit, Bool.and_eq_true, Bool.or_eq_true, beq_iff_eq, hmember, false_or,
    Bool.not_eq_true', List.contains_eq_mem, decide_eq_false_iff_not] at hneeded
  exact hneeded.2 hstars

theorem mem_starNames : name ∈ starNames packages ↔
    ∃ owner ∈ packages, owner ≠ "" ∧ name = owner ++ ".*" := by
  simp only [starNames, List.mem_map, List.mem_filter]
  constructor
  · rintro ⟨owner, ⟨howner, hne⟩, rfl⟩
    exact ⟨owner, howner, by simpa using hne, rfl⟩
  · rintro ⟨owner, howner, hne, rfl⟩
    exact ⟨owner, ⟨howner, by simpa using hne⟩, rfl⟩

end ImportBlock

/-! ## The names that a file refers to -/

namespace FactoryFile

variable {d : Declaration} {exportable viaFactory : Bool} {mode : Mode} {name : String}

/-- The names that a generated file refers to whatever the class. -/
def addedNames (exportable viaFactory : Bool) (mode : Mode) : List String :=
  containerImportNames mode exportable viaFactory ++
    if exportable then [builderMarker, builderReceiver] else []

theorem mem_importNames_iff : name ∈ importNames d exportable viaFactory mode ↔
    (isImportable name = true ∧ ∃ p ∈ d.parameters, name ∈ p.type.typeNames) ∨
      (∃ owner ∈ d.starImports, owner ≠ "" ∧ name = owner ++ ".*") ∨
      name ∈ addedNames exportable viaFactory mode := by
  have htypes : name ∈ d.parameters.flatMap (fun p => p.type.importNames) ↔
      isImportable name = true ∧ ∃ p ∈ d.parameters, name ∈ p.type.typeNames := by
    simp only [List.mem_flatMap, importNames_eq_filter, List.mem_filter]
    constructor
    · rintro ⟨p, hp, hname, himportable⟩
      exact ⟨himportable, p, hp, hname⟩
    · rintro ⟨himportable, p, hp, hname⟩
      exact ⟨p, hp, hname, himportable⟩
  rw [mem_importNames, ownImportNames, addedNames, List.mem_append, List.mem_append,
    List.mem_append, htypes, ImportBlock.mem_starNames]
  simp only [or_assoc, or_comm, or_left_comm]

/-- Recovered defaults change nothing about the names that a file refers to. -/
theorem importNames_withDefaults (d : Declaration) (recovered : Keyed String)
    (exportable viaFactory : Bool) (mode : Mode) :
    importNames (d.withDefaults recovered) exportable viaFactory mode =
      importNames d exportable viaFactory mode := by
  simp [importNames, Declaration.withDefaults, List.flatMap_map]

theorem hasFactory_withDefaults (d : Declaration) (recovered : Keyed String) (policy : Policy) :
    hasFactory (d.withDefaults recovered) policy = hasFactory d policy := by
  simp [hasFactory, Declaration.injected, Declaration.withDefaults, List.filter_map,
    Function.comp_def]

end FactoryFile

end ComponentWiring

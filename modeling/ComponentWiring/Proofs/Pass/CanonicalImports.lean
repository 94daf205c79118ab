import ComponentWiring.Proofs.Code.ImportBlocks
import ComponentWiring.Proofs.Pass.InvisibleComments

/-!
The import block of a generated file is in a standard form, and it makes known whatever the file
refers to. The form is `ImportBlock.Canonical`: the lines increase in the order of their bytes, and
none of them is idle, neither because the file belongs to the package itself nor because the package
is imported as a whole. What is referred to is `FactoryFile.Collected`, and
`artifact?_importsCollected` says that all of it can be used.

The order of names is that of their characters, and a character comes before another one just as its
bytes do (`utf8EncodeChar_append_lt`), so that both orders agree (`utf8Bytes_lt`).
-/

namespace ComponentWiring

open Text TypeExpr
open Source (utf8Bytes utf8Bytes_eq_flatMap)

/-! ## The order of bytes -/

/-- Numbers are ordered by their digits to the base 64, the first one first. -/
theorem digits_lt {n n' : Nat} (h : n < n') :
    n / 262144 < n' / 262144 ∨ n / 262144 = n' / 262144 ∧
      (n / 4096 % 64 < n' / 4096 % 64 ∨ n / 4096 % 64 = n' / 4096 % 64 ∧
        (n / 64 % 64 < n' / 64 % 64 ∨ n / 64 % 64 = n' / 64 % 64 ∧ n % 64 < n' % 64)) := by
  omega

/-- The bytes of a character come before the bytes of a later character, whatever follows. -/
theorem utf8EncodeChar_append_lt {c c' : Char} (h : c < c') (bs bs' : List UInt8) :
    String.utf8EncodeChar c ++ bs < String.utf8EncodeChar c' ++ bs' := by
  have hcode : c.val.toNat < c'.val.toNat := h
  have hbound : c'.val.toNat < 0x110000 := by
    rcases c'.valid with hvalid | ⟨-, hvalid⟩ <;> omega
  simp only [String.utf8EncodeChar]
  generalize c.val.toNat = n at *
  generalize c'.val.toNat = n' at *
  split_ifs <;>
    simp (disch := omega) only [List.cons_append, List.nil_append, List.cons_lt_cons_iff,
      UInt8.lt_iff_toNat_lt, ← UInt8.toNat_inj, UInt8.toNat_ofNat', Nat.mod_eq_of_lt] <;>
    have hdigits := digits_lt hcode <;>
    omega

/-- Texts are ordered like their bytes. -/
theorem utf8Bytes_lt {cs cs' : List Char} (h : cs < cs') : utf8Bytes cs < utf8Bytes cs' := by
  rw [utf8Bytes_eq_flatMap, utf8Bytes_eq_flatMap]
  induction h with
  | nil =>
    obtain ⟨b, bs, hbytes⟩ := List.exists_cons_of_ne_nil (@String.utf8EncodeChar_ne_nil _)
    rw [List.flatMap_nil, List.flatMap_cons, hbytes]
    exact List.nil_lt_cons _ _
  | rel h => exact utf8EncodeChar_append_lt h _ _
  | cons h ih => exact List.append_left_lt ih

/-! ## The form of an import block -/

namespace ImportBlock

variable {names : List String} {package name : String}

/-- An import block in standard form: its lines increase in the order of their bytes, none of them
imports a member of the file's own package or that package as a whole, and none imports a member of
a package that is imported as a whole. -/
structure Canonical (block : List String) (package : String) : Prop where
  increasing : block.Pairwise fun line line' => utf8Bytes line.toList < utf8Bytes line'.toList
  foreign : ∀ line ∈ block, ∃ name, line = "import " ++ name ∧
    ∃ owner ∈ packagePart? name, owner ≠ package
  uncovered : ∀ name, "import " ++ name ∈ block → starPackage? name = none →
    ∀ owner ∈ packagePart? name, "import " ++ (owner ++ ".*") ∉ block

theorem pairwise_lines (h : names.Pairwise (· < ·)) (package : String) :
    (lines names package).Pairwise (· < ·) := by
  refine List.pairwise_map.mpr ((h.filter _).imp fun {name name'} hlt => ?_)
  change ("import " ++ name).toList < ("import " ++ name').toList
  rw [String.toList_append, String.toList_append]
  exact List.append_left_lt hlt

theorem exists_packagePart?_of_isNeeded {stars : List String}
    (h : isNeeded stars package name = true) : ∃ owner ∈ packagePart? name, owner ≠ package := by
  rw [isNeeded] at h
  split at h
  · next owner member hsplit =>
    refine ⟨String.ofList owner, ?_, ?_⟩
    · rw [packagePart?, hsplit]
      rfl
    · simpa using (Bool.and_eq_true_iff.mp h).1
  · cases h

theorem canonical_lines (h : names.Pairwise (· < ·)) (package : String) :
    Canonical (lines names package) package where
  increasing := (pairwise_lines h package).imp utf8Bytes_lt
  foreign line hline := by
    obtain ⟨name, hname, rfl⟩ := List.mem_map.mp hline
    exact ⟨name, rfl, exists_packagePart?_of_isNeeded (List.mem_filter.mp hname).2⟩
  uncovered name hline halone owner howner hstar :=
    (of_mem_lines hline halone).2 owner howner (mem_lines_iff.mp hstar).1

end ImportBlock

/-! ## What a file refers to -/

namespace FactoryFile

open ImportBlock

variable {d : Declaration} {exportable viaFactory : Bool} {mode : Mode} {policy : Policy}
  {name : String}

/-- A name that the file of a class refers to, or a package as a whole. -/
inductive Collected (d : Declaration) (exportable viaFactory : Bool) (mode : Mode) : String → Prop
  /-- A name in the type of a parameter, at any depth. -/
  | type {p : Parameter} {name : String} (parameter : p ∈ d.parameters)
      (named : name ∈ p.type.typeNames) (importable : isImportable name = true) :
      Collected d exportable viaFactory mode name
  /-- A package that the source file imports as a whole. The default package has no name to import
  it by, and a file outside it goes without it. -/
  | package {owner : String} (imported : owner ∈ d.starImports)
      (named : owner = "" → d.package = "") :
      Collected d exportable viaFactory mode (owner ++ ".*")
  /-- A name that the annotations of the factory need. -/
  | annotation {name : String} (factory : viaFactory = true) (needed : name ∈ mode.factoryImports) :
      Collected d exportable viaFactory mode name
  /-- The container, which the builder asks for the factory. -/
  | container (factory : viaFactory = true) (builder : exportable = true) :
      Collected d exportable viaFactory mode mode.handle.importName
  /-- A name that every builder needs. -/
  | builder {name : String} (builder : exportable = true)
      (needed : name ∈ [builderMarker, builderReceiver]) :
      Collected d exportable viaFactory mode name

theorem dotted_of_isImportable (h : isImportable name = true) : '.' ∈ name.toList := by
  simpa [isImportable] using (Bool.and_eq_true_iff.mp h).1

/-- The names that are added to those of the class are qualified. -/
theorem dotted_of_mem_addedNames (h : name ∈ addedNames exportable viaFactory mode) :
    '.' ∈ name.toList := by
  have hall : ∀ name ∈ addedNames exportable viaFactory mode, '.' ∈ name.toList := by
    cases exportable <;> cases viaFactory <;> cases mode <;> decide
  exact hall name h

/-- Whatever a file refers to can be used in it. -/
theorem available_of_collected (h : Collected d exportable viaFactory mode name) :
    let names := importNames d exportable viaFactory mode
    Available (ImportBlock.lines names d.package) d.package name := by
  intro names
  have hadded (hname : name ∈ addedNames exportable viaFactory mode) :
      Available (ImportBlock.lines names d.package) d.package name :=
    available_of_mem (mem_importNames_iff.mpr (.inr (.inr hname))) (dotted_of_mem_addedNames hname)
  cases h with
  | type parameter named importable =>
    exact available_of_mem (mem_importNames_iff.mpr (.inl ⟨importable, _, parameter, named⟩))
      (dotted_of_isImportable importable)
  | @package owner imported named =>
    by_cases hempty : owner = ""
    · subst hempty
      rw [named rfl]
      exact .ownPackage rfl
    · exact available_of_mem (mem_importNames_iff.mpr (.inr (.inl ⟨owner, imported, hempty, rfl⟩)))
        (by simp)
  | annotation factory needed =>
    refine hadded ?_
    simp [addedNames, containerImportNames, factory, needed]
  | container factory builder =>
    refine hadded ?_
    simp [addedNames, containerImportNames, factory, builder]
  | builder builder needed =>
    refine hadded ?_
    simp only [addedNames, builder, if_true]
    exact List.mem_append_right _ needed

end FactoryFile

/-! ## Generated files -/

namespace Declaration

open FactoryFile ImportBlock

variable {d : Declaration} {exportable : Bool} {mode : Mode} {policy : Policy} {a : Artifact}

/-- The import block of a generated file is in standard form, and whatever the file refers to can be
used in it: it is imported, or its package is imported as a whole or is that of the file. -/
theorem artifact?_importsCollected
    (h : d.artifact? exportable mode policy = .ok (some a)) :
    let file := planned d exportable mode policy
    a = file.laidOut ∧ Canonical file.imports a.package ∧
      ∀ name, Collected d exportable (hasFactory d policy) mode name →
        Available file.imports a.package name := by
  intro file
  obtain ⟨-, rfl⟩ := valid_of_artifact? h
  exact ⟨rfl, canonical_lines (Keyed.pairwise_sortedNames _) _, fun _ => available_of_collected⟩

/-- A class whose parameters take their types from several packages, one of which is imported as a
whole. -/
def gallery : Declaration :=
  { name := "Gallery"
    package := "app"
    parameters := [
      { name := "log", type := { name := "org.slf4j.Logger" }, role := .injected },
      { name := "items",
        type := { name := "kotlin.collections.Map",
                  arguments := [{ name := "lib.Key" }, { name := "app.Item" }] },
        role := .exposed },
      { name := "onPick",
        type := { name := "(Row) -> Unit", isOpaque := true,
                  arguments := [{ name := "data.Row" }, { name := "kotlin.Unit" }] },
        role := .exposed }]
    starImports := ["lib"] }

/-- The type `Row` can be used in the file that is generated for this class. -/
theorem artifact?_importsCollected_gallery : ∃ a,
    gallery.artifact? true .spring .alwaysFactory = .ok (some a) ∧
      Canonical (planned gallery true .spring .alwaysFactory).imports a.package ∧
      Available (planned gallery true .spring .alwaysFactory).imports a.package "data.Row" := by
  have hplan : plan gallery true .spring .alwaysFactory =
      .ok (some (planned gallery true .spring .alwaysFactory)) := rfl
  have hartifact := artifact?_eq_ok_some_iff.mpr ⟨_, hplan, rfl⟩
  obtain ⟨-, hcanonical, havailable⟩ := artifact?_importsCollected hartifact
  exact ⟨_, hartifact, hcanonical, havailable "data.Row"
    (.type (p := gallery.parameters[2]) (by simp [gallery]) (by decide) (by decide +kernel))⟩

/-- A class in a package whose source file imports the default package as a whole. -/
def rooted : Declaration :=
  { name := "Card", package := "app", starImports := [""] }

/-- In the file that is generated for this class, the default package is not imported. -/
theorem artifact?_withoutDefaultPackage : ∃ a,
    rooted.artifact? false .spring .alwaysFactory = .ok (some a) ∧
      a = (planned rooted false .spring .alwaysFactory).laidOut ∧
      "" ∈ rooted.starImports ∧
      ¬Available (planned rooted false .spring .alwaysFactory).imports a.package ("" ++ ".*") := by
  have hplan : plan rooted false .spring .alwaysFactory =
      .ok (some (planned rooted false .spring .alwaysFactory)) := rfl
  refine ⟨_, artifact?_eq_ok_some_iff.mpr ⟨_, hplan, rfl⟩, rfl, by simp [rooted], ?_⟩
  decide +kernel

end Declaration

end ComponentWiring

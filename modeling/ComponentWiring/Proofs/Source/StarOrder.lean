import Mathlib.Data.List.Forall2
import ComponentWiring.Proofs.Hierarchy.Reachability
import ComponentWiring.Proofs.Source.ClassFindings
import ComponentWiring.Proofs.Source.ImportTable
import ComponentWiring.Proofs.Source.Markers
import ComponentWiring.Source.FileFindings

/-!
The order of star imports in a source file. What a written name stands for does not depend on it
(`resolve_eq`), since no two known types share their simple name; so what is read of a class is the
same (`findings`), apart from the lists of star imports that its declaration and its properties
carry along. The places of classes and properties are compared from a byte on, behind which the two
texts have to agree about the lines.
-/

namespace ComponentWiring

open Text Source TypeExpr

/-- The second declaration is the first one with its star imports in some order. -/
inductive Declaration.StarPerm (d : Declaration) : Declaration → Prop
  | intro {stars : List String} (h : d.starImports.Perm stars) :
    StarPerm d { d with starImports := stars }

/-- The second property is the first one with its star imports in some order. -/
inductive Property.StarPerm (p : Property) : Property → Prop
  | intro {stars : List String} (h : p.starImports.Perm stars) :
    StarPerm p { p with starImports := stars }

theorem Declaration.StarPerm.refl (d : Declaration) : d.StarPerm d :=
  .intro (.refl _)

theorem Property.StarPerm.refl (p : Property) : p.StarPerm p :=
  .intro (.refl _)

/-! ## Names -/

/-- The types that are known by name. -/
def knownTypes : List String :=
  componentBases ++ SignalKind.all.flatMap fun kind => [kind.bindableName, kind.counterpartName]

theorem isKnownType_iff {name : String} : isKnownType name = true ↔ name ∈ knownTypes := by
  simp only [isKnownType, knownTypes, Bool.or_eq_true, List.contains_iff_mem, List.any_eq_true,
    beq_iff_eq, List.mem_append, List.mem_flatMap, List.mem_pair, eq_comm (a := name)]

/-- No two known types share their simple name. -/
theorem eq_of_isKnownType {name name' : String} (h : isKnownType name = true)
    (h' : isKnownType name' = true) (hlast : lastPart name = lastPart name') : name = name' := by
  have hall : ∀ a ∈ knownTypes, ∀ b ∈ knownTypes, lastPart a = lastPart b → a = b := by decide
  exact hall name (isKnownType_iff.mp h) name' (isKnownType_iff.mp h') hlast

theorem find?_eq_of_perm {α : Type} {p : α → Bool} {l l' : List α} (hperm : l.Perm l')
    (hone : ∀ a ∈ l, ∀ b ∈ l, p a = true → p b = true → a = b) : l.find? p = l'.find? p := by
  cases hfind : l.find? p with
  | none =>
    refine (List.find?_eq_none.mpr fun a ha => ?_).symm
    exact List.find?_eq_none.mp hfind a (hperm.mem_iff.mpr ha)
  | some a =>
    have ha := List.mem_of_find?_eq_some hfind
    have hpa := List.find?_some hfind
    obtain ⟨b, hfind'⟩ := Option.isSome_iff_exists.mp
      (List.find?_isSome.mpr ⟨a, hperm.mem_iff.mp ha, hpa⟩)
    have hb := hperm.mem_iff.mpr (List.mem_of_find?_eq_some hfind')
    rw [hfind', hone a ha b hb hpa (List.find?_some hfind')]

/-- Two functions that agree up to a relation keep related members of a list. -/
theorem forall₂_filterMap_of_rel {α β : Type} {r : β → β → Prop} {f g : α → Option β} {l : List α}
    (h : ∀ a, Option.Rel r (f a) (g a)) : List.Forall₂ r (l.filterMap f) (l.filterMap g) := by
  induction l with
  | nil => exact .nil
  | cons a l ih =>
    have ha := h a
    rw [List.filterMap_cons, List.filterMap_cons]
    generalize f a = b at ha ⊢
    generalize g a = b' at ha ⊢
    cases ha with
    | none => exact ih
    | some hb => exact .cons hb ih

namespace Source

/-- Tables that differ at most in the order of star imports. -/
structure Imports.StarPerm (table table' : Imports) : Prop where
  package : table'.package = table.package
  aliases : table'.aliases = table.aliases
  stars : table.stars.Perm table'.stars

namespace Imports.StarPerm

variable {table table' : Imports}

theorem imported?_eq (h : table.StarPerm table') (name : String) :
    table'.imported? name = table.imported? name := by
  rw [imported?, imported?, h.aliases]

/-- A written name stands for the same. -/
theorem resolve_eq (h : table.StarPerm table') (written : String) :
    table'.resolve written = table.resolve written := by
  unfold resolve
  cases hsplit : splitFirst '.' written.toList with
  | some parts => simp only [h.imported?_eq]
  | none =>
    have hdot : '.' ∉ written.toList := not_mem_of_splitFirst hsplit
    have hfind : (table'.stars.map (· ++ "." ++ written)).find? isKnownType =
        (table.stars.map (· ++ "." ++ written)).find? isKnownType := by
      refine (find?_eq_of_perm (h.stars.map _) fun a ha b hb hknown hknown' => ?_).symm
      obtain ⟨star, -, rfl⟩ := List.mem_map.mp ha
      obtain ⟨star', -, rfl⟩ := List.mem_map.mp hb
      exact eq_of_isKnownType hknown hknown' (by rw [lastPart_append hdot, lastPart_append hdot])
    simp only [h.imported?_eq, hfind, h.package]

/-- A written type is read the same. -/
theorem readType_eq (h : table.StarPerm table') (locals : List String) (cs : List Char) :
    readType table' locals cs = readType table locals cs := by
  have hmentioned (text : List Char) : mentionedTypes table' text = mentionedTypes table text := by
    simp only [mentionedTypes, h.imported?_eq, h.resolve_eq]
  rw [Source.readType_eq table', Source.readType_eq table]
  simp only [opaqueType, hmentioned, h.resolve_eq]
  split
  · rfl
  · congr 1
    cases hinner : (splitArguments (splitNullable (trim cs)).1).2 with
    | none => rfl
    | some inner =>
      refine List.map_congr_left fun piece hpiece => ?_
      have hpieceLength := length_le_of_mem_topLevelParts hpiece
      have hinnerLength := length_lt_of_splitArguments hinner
      have hbodyLength := length_splitNullable_le (trim cs)
      have htrimLength := length_trim_le cs
      exact readType_eq h locals piece
termination_by cs.length
decreasing_by omega

theorem readParameters_eq (h : table.StarPerm table') (list : List Char) (fallback : Convention) :
    readParameters list table' fallback = readParameters list table fallback := by
  simp only [readParameters, h.readType_eq]

end Imports.StarPerm

/-! ## Places -/

/-- A header whose constructor and body stand behind a place. -/
structure Header.StartsFrom (start : Nat) (header : Header) : Prop where
  constructor : ∀ inside visibility, header.shape = .primary inside visibility →
    start ≤ inside.start
  body : ∀ body ∈ header.body, start ≤ body.start

/-- What a header reports stands behind the place at which it starts. -/
theorem Header.StartsFrom.read {start offset : Nat} (h : start ≤ offset) (cs : List Char) :
    (Header.read offset cs).StartsFrom start := by
  have hstart {openMark closeMark : Char} {s : Stretch}
      (hstands : s.Stands openMark closeMark offset cs) : start ≤ s.start := by
    obtain ⟨front, _, _, -, -, hplace⟩ := hstands
    omega
  have hplaced := Header.placed_read offset cs
  exact ⟨fun inside visibility heq => hstart (hplaced.constructor inside visibility heq),
    fun body hmem => hstart (hplaced.body body hmem)⟩

/-! ## Classes -/

/-- Two files that agree, apart from the order of star imports, about the imports, and from a place
on about the lines. -/
structure FileContext.StarPerm (start : Nat) (file file' : FileContext) : Prop where
  imports : file.imports.StarPerm file'.imports
  fallback : file'.fallback = file.fallback
  locate : ∀ offset, start ≤ offset → file'.locate offset = file.locate offset

/-- What becomes of a class in two files, apart from the order of star imports. -/
inductive OutcomeStarPerm : Option (Except Diagnostic Declaration) →
    Option (Except Diagnostic Declaration) → Prop
  | unmarked : OutcomeStarPerm none none
  | refused (diagnostic : Diagnostic) :
    OutcomeStarPerm (some (.error diagnostic)) (some (.error diagnostic))
  | declared {d d' : Declaration} (h : d.StarPerm d') :
    OutcomeStarPerm (some (.ok d)) (some (.ok d'))

/-- What a class contributes in two files, apart from the order of star imports. -/
structure ClassFindings.StarPerm (c c' : ClassFindings) : Prop where
  qualifiedName : c'.qualifiedName = c.qualifiedName
  supertypes : c'.supertypes = c.supertypes
  properties : List.Forall₂ Property.StarPerm c.properties c'.properties
  outcome : OutcomeStarPerm c.outcome c'.outcome

namespace FileContext.StarPerm

variable {start : Nat} {file file' : FileContext}

theorem property (h : FileContext.StarPerm start file file') {offset : Nat} (hle : start ≤ offset)
    (owner name : String) (type : List Char) (modifiers : List String) :
    (file.property owner name type modifiers offset).StarPerm
      (file'.property owner name type modifiers offset) := by
  have heq : file'.property owner name type modifiers offset =
      { file.property owner name type modifiers offset with
        starImports := file'.imports.stars } := by
    simp only [FileContext.property, h.imports.package, h.imports.readType_eq, h.locate offset hle]
  rw [heq]
  exact .intro h.imports.stars

theorem constructorProperties (h : FileContext.StarPerm start file file') {inside : Stretch}
    (hle : start ≤ inside.start) (owner : String) :
    List.Forall₂ Property.StarPerm (file.constructorProperties owner inside)
      (file'.constructorProperties owner inside) := by
  refine forall₂_filterMap_of_rel fun ⟨part, offset⟩ => ?_
  dsimp only
  cases parameterText? part with
  | none => exact .none
  | some p =>
    cases hmarked : p.isProperty && carriesMarker p.annotations propertyMarker with
    | false => simp [hmarked]
    | true => simpa [hmarked] using h.property (by omega) _ _ _ _

theorem bodyProperties (h : FileContext.StarPerm start file file') {body : Stretch}
    (hle : start ≤ body.start) (owner : String) :
    List.Forall₂ Property.StarPerm (file.bodyProperties owner body)
      (file'.bodyProperties owner body) := by
  refine forall₂_filterMap_of_rel fun found => ?_
  dsimp only
  cases hmarked : carriesMarker found.value.annotations propertyMarker with
  | false => simp
  | true => simpa using h.property (by omega) _ _ _ _

theorem constructorParameters_eq (h : FileContext.StarPerm start file file') (head : ClassHead)
    (header : Header) :
    file'.constructorParameters head header = file.constructorParameters head header := by
  simp only [FileContext.constructorParameters, h.imports.readParameters_eq, h.fallback]

/-- Behind the place from which the texts agree about the lines a class contributes the same. -/
theorem findings (h : FileContext.StarPerm start file file') {found : Occurrence ClassHead}
    (hle : start ≤ found.stop) : (file.findings found).StarPerm (file'.findings found) := by
  have hheader : (Header.read found.stop found.rest).StartsFrom start := .read hle _
  have htypes : readType file'.imports = readType file.imports := funext₂ h.imports.readType_eq
  constructor
  · simp only [FileContext.findings, h.imports.package]
  · simp only [FileContext.findings, htypes]
  · simp only [FileContext.findings]
    refine List.rel_append ?_ ?_
    · cases hshape : (Header.read found.stop found.rest).shape with
      | primary inside visibility =>
        exact h.constructorProperties (hheader.constructor _ _ hshape) _
      | implicit => exact .nil
      | unbalanced => exact .nil
    · cases hbody : (Header.read found.stop found.rest).body with
      | none => exact .nil
      | some body => exact h.bodyProperties (hheader.body _ hbody) _
  · simp only [FileContext.findings, h.constructorParameters_eq, h.locate _ hle, h.imports.package,
      htypes]
    split
    · split
      · exact .declared (.intro h.imports.stars)
      · exact .refused _
    · exact .unmarked

end FileContext.StarPerm

/-! ## Files -/

/-- What two files declare, apart from the order of star imports. -/
structure FileFindings.StarPerm (f f' : FileFindings) : Prop where
  declarations : List.Forall₂ Declaration.StarPerm f.declarations f'.declarations
  properties : List.Forall₂ Property.StarPerm f.properties f'.properties
  diagnostics : f'.diagnostics = f.diagnostics
  known : ∀ name, Option.Rel ClassHierarchy.SameClass (f.hierarchy.find? name)
    (f'.hierarchy.find? name)

theorem FileFindings.StarPerm.refl (f : FileFindings) : f.StarPerm f where
  declarations := List.forall₂_same.mpr fun d _ => .refl d
  properties := List.forall₂_same.mpr fun p _ => .refl p
  diagnostics := rfl
  known name := by
    cases f.hierarchy.find? name with
    | none => exact .none
    | some c => exact .some (.refl c)

theorem rel_lookup {β : Type} {r : β → β → Prop} {pairs pairs' : List (String × β)}
    (h : List.Forall₂ (fun a a' => a'.1 = a.1 ∧ r a.2 a'.2) pairs pairs') (name : String) :
    Option.Rel r (pairs.lookup name) (pairs'.lookup name) := by
  induction h with
  | nil => exact .none
  | @cons a a' _ _ ha _ ih =>
    rw [List.lookup_cons, List.lookup_cons, ha.1]
    cases name == a.1 with
    | true => exact .some ha.2
    | false => exact ih

theorem FileFindings.starPerm_ofFindings {file file' : FileContext}
    {classes classes' : List ClassFindings} (himports : file.imports.StarPerm file'.imports)
    (h : List.Forall₂ ClassFindings.StarPerm classes classes') :
    (ofFindings file classes).StarPerm (ofFindings file' classes') where
  declarations := by
    refine List.rel_filterMap (fun c c' hc => ?_) h
    obtain ⟨-, -, -, houtcome⟩ := hc
    generalize c.outcome = outcome at houtcome ⊢
    generalize c'.outcome = outcome' at houtcome ⊢
    cases houtcome with
    | unmarked => exact .none
    | refused diagnostic => exact .none
    | declared hd => exact .some hd
  properties := List.rel_flatMap h fun _ _ hc => hc.properties
  diagnostics := by
    unfold ofFindings
    dsimp only
    induction h with
    | nil => rfl
    | @cons c c' _ _ hc _ ih =>
      have houtcome := hc.outcome
      rw [List.filterMap_cons, List.filterMap_cons, ih]
      generalize c.outcome = outcome at houtcome ⊢
      generalize c'.outcome = outcome' at houtcome ⊢
      cases houtcome <;> rfl
  known name := by
    have hpairs : List.Forall₂ (fun (a a' : String × KnownClass) =>
        a'.1 = a.1 ∧ ClassHierarchy.SameClass a.2 a'.2)
        (classes.map fun c => (c.qualifiedName, ⟨c.supertypes, file.imports.stars⟩))
        (classes'.map fun c => (c.qualifiedName, ⟨c.supertypes, file'.imports.stars⟩)) := by
      refine List.rel_map (fun c c' hc => ?_) h
      exact ⟨hc.qualifiedName, .of_eq hc.supertypes.symm, himports.stars⟩
    rw [ClassHierarchy.find?, ClassHierarchy.find?, byName_hierarchy_ofFindings,
      byName_hierarchy_ofFindings, Keyed.get?_ofList, Keyed.get?_ofList]
    exact rel_lookup (List.rel_reverse hpairs) name

end Source

end ComponentWiring

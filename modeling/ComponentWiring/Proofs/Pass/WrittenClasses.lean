import ComponentWiring.Proofs.Source.ParameterLines
import ComponentWiring.Proofs.Source.WrittenNames
import ComponentWiring.Source.FileFindings

/-!
Where a declaration is written. Each declaration of a file is read from a head (`ReadAt`), and its
parameters from the parts of the parameter list behind the name, in order
(`ReadAt.forall₂_writtenParameters`). The types that are written there are the texts that every
statement about the types of a declaration goes back to (`exists_parameter_of_isWrittenType`,
`exists_isWrittenType`), and so it is with the types of marked properties
(`exists_type_of_mem_properties`).
-/

namespace ComponentWiring.Source

open Text

/-! ## Heads -/

/-- What a file of a given text shares with the classes in it. -/
def FileContext.ofText (path : String) (text : List Char) (fallback : Convention) : FileContext :=
  let masked := blankComments text
  ⟨path, masked, Imports.ofText masked, fallback⟩

/-- A head that a declaration was read from, between the other heads of the file. -/
structure ReadAt (file : FileContext) (d : Declaration) (before : List (Occurrence ClassHead))
    (found : Occurrence ClassHead) (after : List (Occurrence ClassHead)) : Prop where
  heads : classHeads file.masked = before ++ found :: after
  ownClass : found.value.has "companion" = false
  declares : (file.findings found).outcome = some (.ok d)

/-- What stands in the parentheses of the primary constructor of the class at a head. -/
def parameterList? (head : Occurrence ClassHead) : Option Stretch :=
  match (Header.read head.stop head.rest).shape with
  | .primary inside _ => some inside
  | _ => none

variable {path : String} {text : List Char} {fallback : Convention} {file : FileContext}
  {d : Declaration} {before after : List (Occurrence ClassHead)} {found : Occurrence ClassHead}

theorem ReadAt.mem_classHeads (h : ReadAt file d before found after) :
    found ∈ classHeads file.masked := by
  rw [h.heads]
  exact List.mem_append_right _ List.mem_cons_self

/-- The declarations of a file are those that are read from one of its heads. -/
theorem mem_declarations_iff : d ∈ (FileFindings.read path text fallback).declarations ↔
    ∃ before found after, ReadAt (FileContext.ofText path text fallback) d before found after := by
  constructor
  · intro h
    obtain ⟨c, hc, hd⟩ := List.mem_filterMap.mp h
    obtain ⟨found, hfound, rfl⟩ := List.mem_map.mp hc
    obtain ⟨hmem, hown⟩ := List.mem_filter.mp hfound
    obtain ⟨before, after, hheads⟩ := List.append_of_mem hmem
    obtain ⟨outcome, houtcome, hd⟩ := Option.bind_eq_some_iff.mp hd
    cases outcome with
    | error diagnostic => cases hd
    | ok d' =>
      cases hd
      exact ⟨before, found, after, hheads, by simpa using hown, houtcome⟩
  · rintro ⟨before, found, after, hat⟩
    have hkept : found ∈ (classHeads (FileContext.ofText path text fallback).masked).filter
        fun found => !found.value.has "companion" :=
      List.mem_filter.mpr ⟨hat.mem_classHeads, by simp [hat.ownClass]⟩
    exact List.mem_filterMap.mpr ⟨_, List.mem_map_of_mem hkept,
      Option.bind_eq_some_iff.mpr ⟨_, hat.declares, rfl⟩⟩

/-- What is seen of the declaration at the head of a number. -/
def declarationAt? {α : Type} (file : FileContext) (view : Declaration → α) (i : Nat) :
    Option α := do
  let found ← (classHeads file.masked)[i]?
  let .ok d ← (file.findings found).outcome | none
  if found.value.has "companion" then none else some (view d)

theorem exists_readAt_of_declarationAt? {α : Type} {view : Declaration → α} {i : Nat} {seen : α}
    (h : declarationAt? file view i = some seen) :
    ∃ d before found after, ReadAt file d before found after ∧
      (classHeads file.masked)[i]? = some found ∧ view d = seen := by
  obtain ⟨found, hfound, h⟩ := Option.bind_eq_some_iff.mp h
  obtain ⟨outcome, houtcome, h⟩ := Option.bind_eq_some_iff.mp h
  cases outcome with
  | error diagnostic => cases h
  | ok d =>
    obtain ⟨hown, hview⟩ := Option.ite_none_left_eq_some.mp h
    obtain ⟨hlen, hget⟩ := List.getElem?_eq_some_iff.mp hfound
    have hheads : classHeads file.masked =
        (classHeads file.masked).take i ++ found :: (classHeads file.masked).drop (i + 1) := by
      rw [← hget, ← List.drop_eq_getElem_cons hlen, List.take_append_drop]
    exact ⟨d, _, found, _, ⟨hheads, by simpa using hown, houtcome⟩, hfound,
      Option.some.inj hview⟩

namespace ReadAt

/-- A declaration has the name of its head, the package and the star imports of its file, and the
parameters and supertypes that are read at the head. -/
theorem exists_eq (h : ReadAt file d before found after) : ∃ parameters,
    file.constructorParameters found.value (Header.read found.stop found.rest) = .ok parameters ∧
      d = { name := found.value.name, package := file.imports.package, parameters,
            supertypes := (file.findings found).supertypes, starImports := file.imports.stars,
            location := file.locate found.stop } := by
  have houtcome := h.declares
  simp only [FileContext.findings] at houtcome ⊢
  split at houtcome
  · split at houtcome
    · next parameters hparameters =>
      cases houtcome
      exact ⟨parameters, hparameters, rfl⟩
    · cases houtcome
  · cases houtcome

end ReadAt

/-! ## Parameters -/

/-- The parameters that are written behind a head. -/
def writtenParameters (head : Occurrence ClassHead) : List ParameterText :=
  match parameterList? head with
  | some inside => (parameterParts inside.text).filterMap parameterText?
  | none => []

/-- The parameters of a list are read from its parts. -/
theorem forall₂_of_readParameters {list : List Char} {imports : Imports} {fallback : Convention}
    {ps : List Parameter} (h : readParameters list imports fallback = .ok ps) :
    List.Forall₂ (fun (t : ParameterText) p => p.type = readType imports [] t.typeText)
      ((parameterParts list).filterMap parameterText?) ps := by
  unfold readParameters at h
  cases htexts : (parameterParts list).mapM usableParameter with
  | error e => simp [htexts, bind, Except.bind] at h
  | ok texts =>
    simp only [htexts, bind, Except.bind, pure, Except.pure, Except.ok.injEq] at h
    subst h
    have hread : ∀ {parts : List (List Char)} {texts : List ParameterText},
        List.Forall₂ (fun part t => usableParameter part = .ok t) parts texts →
          parts.filterMap parameterText? = texts := by
      intro parts texts husable
      induction husable with
      | nil => rfl
      | cons hpart _ ih => rw [List.filterMap_cons_some (usableParameter_eq_ok.mp hpart).1, ih]
    rw [hread (mapM_eq_ok_iff.mp htexts), List.forall₂_map_right_iff]
    exact List.forall₂_same.mpr fun t _ => rfl

namespace ReadAt

/-- The parameters of a declaration are those that are written behind its head. -/
theorem forall₂_writtenParameters (h : ReadAt file d before found after) :
    List.Forall₂ (fun (t : ParameterText) p => p.type = readType file.imports [] t.typeText)
      (writtenParameters found) d.parameters := by
  obtain ⟨parameters, hread, rfl⟩ := h.exists_eq
  unfold FileContext.constructorParameters at hread
  unfold writtenParameters parameterList?
  cases hshape : (Header.read found.stop found.rest).shape with
  | unbalanced =>
    simp only [hshape] at hread
    split_ifs at hread
  | implicit =>
    simp only [hshape] at hread
    split_ifs at hread
    cases hread
    exact .nil
  | primary inside visibility =>
    simp only [hshape] at hread
    split_ifs at hread
    cases hlist : readParameters inside.text file.imports file.fallback with
    | error fault =>
      rw [hlist] at hread
      cases hread
    | ok ps =>
      rw [hlist] at hread
      cases hread
      exact forall₂_of_readParameters hlist

end ReadAt

/-- A type that is written for a parameter of a declaration. -/
def IsWrittenType (file : FileContext) (d : Declaration) (cs : List Char) : Prop :=
  ∃ before found after, ReadAt file d before found after ∧
    ∃ t ∈ writtenParameters found, t.typeText = cs

/-- A written type is read for a parameter of the declaration. -/
theorem exists_parameter_of_isWrittenType {cs : List Char} (h : IsWrittenType file d cs) :
    ∃ p ∈ d.parameters, p.type = readType file.imports [] cs := by
  obtain ⟨before, found, after, hat, t, ht, rfl⟩ := h
  exact exists_of_mem_of_forall₂ hat.forall₂_writtenParameters ht

/-- The type of every parameter of a declaration is written. -/
theorem exists_isWrittenType {p : Parameter}
    (h : d ∈ (FileFindings.read path text fallback).declarations) (hp : p ∈ d.parameters) :
    ∃ cs, IsWrittenType (FileContext.ofText path text fallback) d cs ∧
      p.type = readType (FileContext.ofText path text fallback).imports [] cs := by
  obtain ⟨before, found, after, hat⟩ := mem_declarations_iff.mp h
  obtain ⟨t, ht, htype⟩ := exists_of_mem_of_forall₂ hat.forall₂_writtenParameters.flip hp
  exact ⟨t.typeText, ⟨before, found, after, hat, t, ht, rfl⟩, htype⟩

/-! ## Marked properties -/

/-- The type that is written for a property in a class body. -/
def PropertyText.typeText (p : PropertyText) : List Char :=
  beforeText " by ".toList (p.type.getD [])

/-- The types that are written for the marked properties of the class at a head: for those in its
constructor, and for those in its body. -/
def markedTypes (head : Occurrence ClassHead) : List (List Char) :=
  ((writtenParameters head).filter fun t =>
    t.isProperty && carriesMarker t.annotations propertyMarker).map (·.typeText) ++
  match (Header.read head.stop head.rest).body with
  | some body =>
    ((properties (ownMembers body.text)).filter fun member =>
      carriesMarker member.value.annotations propertyMarker).map (·.value.typeText)
  | none => []

/-- What is read of a property whose type is written as given. -/
structure ReadsProperty (file : FileContext) (p : Property) (type : List Char) : Prop where
  package : p.package = file.imports.package
  stars : p.starImports = file.imports.stars
  name : IsName p.name.toList
  type : p.type = readType file.imports [] type

theorem isName_of_parameterText? {part : List Char} {t : ParameterText}
    (h : parameterText? part = some t) : IsName t.name.toList := by
  obtain ⟨last, left, -, -, hname, -⟩ := exists_name_of_parameterText? h
  obtain ⟨_, hname, -⟩ := nameAndColon?_eq_some.mp hname
  exact isName_of_name? hname

theorem isName_of_property? {previous : Option Char} {cs : List Char}
    {r : PropertyText × List Char} (h : property? previous cs = some r) :
    IsName r.1.name.toList := by
  obtain ⟨-, h⟩ := Option.ite_none_right_eq_some.mp h
  obtain ⟨_, -, h⟩ := Option.bind_eq_some_iff.mp h
  obtain ⟨⟨name, rest⟩, hread, h⟩ := Option.bind_eq_some_iff.mp h
  have hname : IsName (String.ofList name).toList := by
    rw [String.toList_ofList]
    exact isName_of_name? hread
  simp only at h
  split at h <;> exact Option.some.inj h ▸ hname

theorem exists_type_of_mem_constructorProperties {owner : String} {inside : Stretch}
    {p : Property} (h : p ∈ file.constructorProperties owner inside) :
    ∃ t ∈ (parameterParts inside.text).filterMap parameterText?,
      (t.isProperty && carriesMarker t.annotations propertyMarker) = true ∧
        ReadsProperty file p t.typeText := by
  obtain ⟨⟨part, offset⟩, hpart, h⟩ := List.mem_filterMap.mp h
  have hmem := mem_parameterParts_of_mem_parametersWithOffsets hpart
  simp only at h
  split at h
  · next t hread =>
    obtain ⟨hmarked, h⟩ := Option.ite_none_right_eq_some.mp h
    cases h
    exact ⟨t, List.mem_filterMap.mpr ⟨part, hmem, hread⟩, hmarked, rfl, rfl,
      isName_of_parameterText? hread, rfl⟩
  · cases h

theorem exists_type_of_mem_bodyProperties {owner : String} {body : Stretch} {p : Property}
    (h : p ∈ file.bodyProperties owner body) :
    ∃ member ∈ properties (ownMembers body.text),
      carriesMarker member.value.annotations propertyMarker = true ∧
        ReadsProperty file p member.value.typeText := by
  obtain ⟨member, hmember, h⟩ := List.mem_filterMap.mp h
  obtain ⟨hmarked, h⟩ := Option.ite_none_right_eq_some.mp h
  cases h
  obtain ⟨before, after, -, hread⟩ := exists_of_mem_occurrences hmember
  exact ⟨member, hmember, hmarked, rfl, rfl, isName_of_property? hread, rfl⟩

/-- The type of every property is written for a marked one. -/
theorem exists_type_of_mem_properties {p : Property} (h : p ∈ (file.findings found).properties) :
    ∃ cs ∈ markedTypes found, ReadsProperty file p cs := by
  simp only [FileContext.findings, List.mem_append] at h
  simp only [markedTypes, List.mem_append]
  rcases h with h | h
  · split at h
    · next inside visibility hshape =>
      obtain ⟨t, ht, hmarked, hreads⟩ := exists_type_of_mem_constructorProperties h
      have hwritten : t ∈ writtenParameters found := by
        rwa [writtenParameters, parameterList?, hshape]
      exact ⟨_, .inl (List.mem_map_of_mem (List.mem_filter.mpr ⟨hwritten, hmarked⟩)), hreads⟩
    · cases h
  · cases hbody : (Header.read found.stop found.rest).body with
    | none =>
      rw [hbody] at h
      cases h
    | some body =>
      rw [hbody] at h
      obtain ⟨member, hmember, hmarked, hreads⟩ := exists_type_of_mem_bodyProperties h
      exact ⟨_, .inr (List.mem_map_of_mem
        (f := fun member : Occurrence PropertyText => member.value.typeText)
        (List.mem_filter.mpr ⟨hmember, hmarked⟩)), hreads⟩

end ComponentWiring.Source

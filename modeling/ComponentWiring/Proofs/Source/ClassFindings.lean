import ComponentWiring.Proofs.Keyed
import ComponentWiring.Source.FileFindings

/-!
What the classes of a file contribute, by name: a declaration and the marked properties carry the
name of their class (`qualifiedName_of_outcome`, `qualify_of_mem_properties`), and the hierarchy of
the file lists the classes under their names (`byName_hierarchy_ofFindings`).
-/

namespace ComponentWiring.Source

open Text

variable {file : FileContext} {found : Occurrence ClassHead}

theorem qualifiedName_of_outcome {d : Declaration}
    (h : (file.findings found).outcome = some (.ok d)) :
    d.qualifiedName = (file.findings found).qualifiedName := by
  simp only [FileContext.findings] at h ⊢
  split at h
  · split at h
    · cases h
      rfl
    · cases h
  · cases h

theorem owner_of_mem_constructorProperties {owner : String} {inside : Stretch} {p : Property}
    (h : p ∈ file.constructorProperties owner inside) :
    p.package = file.imports.package ∧ p.owner = owner := by
  obtain ⟨part, -, h⟩ := List.mem_filterMap.mp h
  simp only at h
  split at h
  · split at h
    · cases h
      exact ⟨rfl, rfl⟩
    · cases h
  · cases h

theorem owner_of_mem_bodyProperties {owner : String} {body : Stretch} {p : Property}
    (h : p ∈ file.bodyProperties owner body) :
    p.package = file.imports.package ∧ p.owner = owner := by
  obtain ⟨member, -, h⟩ := List.mem_filterMap.mp h
  simp only at h
  split at h
  · cases h
    exact ⟨rfl, rfl⟩
  · cases h

theorem owner_of_mem_properties {p : Property} (h : p ∈ (file.findings found).properties) :
    p.package = file.imports.package ∧ p.owner = found.value.name := by
  simp only [FileContext.findings, List.mem_append] at h
  rcases h with h | h
  · split at h
    · exact owner_of_mem_constructorProperties h
    · cases h
  · split at h
    · exact owner_of_mem_bodyProperties h
    · cases h

theorem qualify_of_mem_properties {p : Property} (h : p ∈ (file.findings found).properties) :
    qualify p.package p.owner = (file.findings found).qualifiedName := by
  obtain ⟨hpackage, howner⟩ := owner_of_mem_properties h
  rw [hpackage, howner]
  rfl

/-- The hierarchy of a file lists its classes. -/
theorem byName_hierarchy_ofFindings (file : FileContext) (classes : List ClassFindings) :
    (FileFindings.ofFindings file classes).hierarchy.byName =
      Keyed.ofList (classes.map fun c =>
        (c.qualifiedName, ⟨c.supertypes, file.imports.stars⟩)) := by
  rw [Keyed.ofList, List.foldl_map]
  exact (List.foldl_hom ClassHierarchy.byName fun _ _ => rfl).symm

theorem contains_ofFindings {classes : List ClassFindings} {c : ClassFindings} (h : c ∈ classes) :
    (FileFindings.ofFindings file classes).hierarchy.contains c.qualifiedName = true := by
  rw [ClassHierarchy.contains, byName_hierarchy_ofFindings]
  exact Keyed.contains_ofList_of_mem (List.mem_map_of_mem h)

end ComponentWiring.Source

import ComponentWiring.Proofs.Hierarchy.Reachability
import ComponentWiring.Proofs.Source.ImportTable

/-!
Classes that the search for components never comes upon. Two hierarchies that agree apart from
classes of certain simple names have the same components if no supertype has such a name
(`isComponent_eq`): a search that starts at other names stays at other names, also where it goes on
to a member of a star-imported package.
-/

namespace ComponentWiring

open Source

/-- No supertype has one of the simple names. -/
def AvoidsNames (fresh : String → Prop) (supertypes : List TypeExpr) : Prop :=
  ∀ t ∈ supertypes, ¬fresh t.simpleName

namespace ClassHierarchy

/-- The hierarchies agree apart from classes of certain simple names, and no supertype of a class
that they agree on has such a name. -/
structure AgreeOff (fresh : String → Prop) (known known' : ClassHierarchy) : Prop where
  find : ∀ name, ¬fresh (TypeExpr.lastPart name) → known'.find? name = known.find? name
  avoids : ∀ name c, known.find? name = some c → AvoidsNames fresh c.supertypes

/-- A target that is not at one of the simple names. -/
def Target.Avoids (fresh : String → Prop) (target : Target) : Prop :=
  ∀ name, target = .named name → ¬fresh (TypeExpr.lastPart name)

variable {fresh : String → Prop} {known known' : ClassHierarchy} {owner : String}
  {supertypes : List TypeExpr} {stars : List String}

theorem contains_eq_isSome_find? (known : ClassHierarchy) (name : String) :
    known.contains name = (known.find? name).isSome :=
  rfl

theorem avoids_of_mem_targets (h : AvoidsNames fresh supertypes) {target : Target}
    (htarget : target ∈ known.targets owner supertypes stars) : target.Avoids fresh := by
  obtain ⟨t, ht, htarget⟩ := List.mem_flatMap.mp htarget
  obtain ⟨hnamed, htarget⟩ := mem_targetsOf_iff.mp htarget
  have hsimple : t.simpleName = TypeExpr.lastPart t.name := by
    rw [TypeExpr.simpleName, hnamed, if_neg Bool.false_ne_true]
  have hfresh := h t ht
  rintro name rfl
  rcases htarget with heq | ⟨-, star, -, heq⟩
  · cases heq
    rwa [← hsimple]
  · split at heq
    · cases heq
    · cases heq
      rwa [lastPart_append_dot, hsimple, lastPart_eq_self (dot_not_mem_lastPart _), ← hsimple]

theorem AgreeOff.targets_eq (hagree : AgreeOff fresh known known')
    (h : AvoidsNames fresh supertypes) :
    known'.targets owner supertypes stars = known.targets owner supertypes stars := by
  refine List.flatMap_congr fun t ht => ?_
  unfold targetsOf
  cases hopaque : t.isOpaque with
  | true => rfl
  | false =>
    have hfresh : ¬fresh (TypeExpr.lastPart t.name) := by
      simpa [TypeExpr.simpleName, hopaque] using h t ht
    rw [contains_eq_isSome_find?, contains_eq_isSome_find?, hagree.find t.name hfresh]

/-- The two searches go the same way. -/
theorem AgreeOff.leadsToComponent_eq (hagree : AgreeOff fresh known known')
    {visited : List String} {work : List Target} (hwork : ∀ target ∈ work, target.Avoids fresh) :
    known'.leadsToComponent visited work = known.leadsToComponent visited work := by
  fun_induction leadsToComponent known visited work with
  | case1 => rw [leadsToComponent]
  | case2 => rw [leadsToComponent]
  | case3 visited name work hname => rw [leadsToComponent, if_pos hname]
  | case4 visited name work hname hvisited ih =>
    rw [leadsToComponent, if_neg hname, dif_pos hvisited]
    exact ih (List.forall_mem_cons.mp hwork).2
  | case5 visited name work hname hvisited hunknown ih =>
    obtain ⟨htarget, hwork⟩ := List.forall_mem_cons.mp hwork
    have hfind : known'.find? name = none := (hagree.find name (htarget name rfl)).trans hunknown
    rw [leadsToComponent, if_neg hname, dif_neg hvisited]
    split
    · exact ih hwork
    · next hfound => cases hfind.symm.trans hfound
  | case6 visited name work hname hvisited c hfound ih =>
    obtain ⟨htarget, hwork⟩ := List.forall_mem_cons.mp hwork
    have hfind : known'.find? name = some c := (hagree.find name (htarget name rfl)).trans hfound
    have havoids := hagree.avoids name c hfound
    rw [leadsToComponent, if_neg hname, dif_neg hvisited]
    split
    · next hunknown => cases hfind.symm.trans hunknown
    · next c' hfound' =>
      cases hfind.symm.trans hfound'
      rw [hagree.targets_eq havoids]
      exact ih (List.forall_mem_append.mpr ⟨fun target => avoids_of_mem_targets havoids, hwork⟩)

theorem isComponent_eq (hagree : AgreeOff fresh known known') {d : Declaration}
    (h : AvoidsNames fresh d.supertypes) : known'.isComponent d = known.isComponent d := by
  rw [isComponent, hagree.targets_eq h]
  exact hagree.leadsToComponent_eq fun target => avoids_of_mem_targets h

end ClassHierarchy

end ComponentWiring

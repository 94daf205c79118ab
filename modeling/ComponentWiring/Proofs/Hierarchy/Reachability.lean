import Mathlib.Data.Option.Basic
import Mathlib.Logic.Relation
import ComponentWiring.Model.ClassHierarchy

/-!
Being a component is reachability. The classes of a pass make a graph: the declaration under
question stands for itself, with its own supertypes and star imports, and every other name for what
the hierarchy knows about it. `isComponent_iff_reachable` says that the search answers yes exactly
when a component can be reached in that graph, for any hierarchy, with cycles or without.

The search works on a list of `Target`s and a list of names it has followed. It is compared with
the graph in two steps. `Reaches` says what a single target leads to, without any bookkeeping; the
search finds out just that (`exists_reaches_of_leadsToComponent` and
`exists_followed_of_not_leadsToComponent`). The invariant behind it is `Followed`: where a followed
name leads is still on the list, or is settled. Then `reaches_named_iff` turns targets into paths.
-/

namespace ComponentWiring.ClassHierarchy

open Relation

variable {known : ClassHierarchy} {d : Declaration}

/-! ## The graph -/

/-- What stands at a name of the graph: the declaration at its own name, and at any other name what
the hierarchy knows. -/
def node? (known : ClassHierarchy) (d : Declaration) (name : String) : Option KnownClass :=
  if name = d.qualifiedName then some ⟨d.supertypes, d.starImports⟩ else known.find? name

/-- A supertype of `owner` that may as well come from a star import: it is not known by its name,
and that name is in the package of `owner`. -/
def MayComeByStar (known : ClassHierarchy) (owner : String) (supertype : TypeExpr) : Prop :=
  known.contains supertype.name = false ∧ packageOf supertype.name = packageOf owner

/-- The edges of the graph. -/
inductive Edge (known : ClassHierarchy) (d : Declaration) : String → String → Prop
  /-- From a class to a supertype of it. -/
  | supertype {owner : String} {c : KnownClass} {t : TypeExpr}
      (hnode : known.node? d owner = some c) (hmem : t ∈ c.supertypes)
      (hplain : t.isOpaque = false) : Edge known d owner t.name
  /-- From a class to the member of a star-imported package that a supertype may be. -/
  | starImport {owner : String} {c : KnownClass} {t : TypeExpr} {star : String}
      (hnode : known.node? d owner = some c) (hmem : t ∈ c.supertypes)
      (hplain : t.isOpaque = false) (hstar : known.MayComeByStar owner t)
      (himported : star ∈ c.starImports) : Edge known d owner (star ++ "." ++ t.simpleName)

/-- A class one of whose supertypes may come from a component package that it imports with a
star. -/
inductive StarHit (known : ClassHierarchy) (d : Declaration) : String → Prop
  | intro {owner : String} {c : KnownClass} {t : TypeExpr} {star : String}
      (hnode : known.node? d owner = some c) (hmem : t ∈ c.supertypes)
      (hplain : t.isOpaque = false) (hstar : known.MayComeByStar owner t)
      (himported : star ∈ c.starImports) (hpackage : star ∈ componentPackages) :
      StarHit known d owner

/-- A name that is a component by itself. -/
def NamesComponent (name : String) : Prop :=
  name ∈ componentBases ∨ ∃ package ∈ componentPackages, TypeExpr.packagePart? name = some package

theorem isComponentName_iff (name : String) :
    isComponentName name = true ↔ NamesComponent name := by
  unfold isComponentName NamesComponent
  cases h : TypeExpr.packagePart? name <;> simp

theorem node?_self : known.node? d d.qualifiedName = some ⟨d.supertypes, d.starImports⟩ := by
  simp [node?]

theorem node?_of_ne {name : String} (h : name ≠ d.qualifiedName) :
    known.node? d name = known.find? name := by
  simp [node?, h]

/-! ## Targets and edges -/

/-- Where a supertype leads: to its name, and where it may come by star also to the members of the
star-imported packages, a component package counting as a component at once. -/
theorem mem_targetsOf_iff {owner : String} {stars : List String} {t : TypeExpr} {target : Target} :
    target ∈ known.targetsOf owner stars t ↔
      t.isOpaque = false ∧ (target = .named t.name ∨
        known.MayComeByStar owner t ∧ ∃ star ∈ stars,
          target = if star ∈ componentPackages then .component
            else .named (star ++ "." ++ t.simpleName)) := by
  unfold targetsOf MayComeByStar
  cases t.isOpaque with
  | true => simp
  | false =>
    by_cases hknown : known.contains t.name = true
    · simp [hknown]
    · by_cases hpackage : packageOf t.name = packageOf owner
      · simp [hknown, hpackage, eq_comm]
      · simp [hknown, hpackage]

theorem mem_targets_iff {owner : String} {c : KnownClass} {target : Target} :
    target ∈ known.targets owner c.supertypes c.starImports ↔
      ∃ t ∈ c.supertypes, target ∈ known.targetsOf owner c.starImports t := by
  simp [targets, List.mem_flatMap]

/-- A target of a class is a component at once or the end of an edge. -/
theorem starHit_or_edge_of_mem_targets {owner : String} {c : KnownClass} {target : Target}
    (hnode : known.node? d owner = some c)
    (h : target ∈ known.targets owner c.supertypes c.starImports) :
    target = .component ∧ StarHit known d owner ∨
      ∃ name, target = .named name ∧ Edge known d owner name := by
  obtain ⟨t, hmem, ht⟩ := mem_targets_iff.mp h
  obtain ⟨hplain, rfl | ⟨hstar, star, himported, rfl⟩⟩ := mem_targetsOf_iff.mp ht
  · exact .inr ⟨_, rfl, .supertype hnode hmem hplain⟩
  · by_cases hpackage : star ∈ componentPackages
    · exact .inl ⟨if_pos hpackage, .intro hnode hmem hplain hstar himported hpackage⟩
    · exact .inr ⟨_, if_neg hpackage, .starImport hnode hmem hplain hstar himported⟩

/-! ## Where a target leads -/

/-- A target that leads to a component. -/
inductive Reaches (known : ClassHierarchy) (d : Declaration) : Target → Prop
  | component : Reaches known d .component
  | here {name : String} (h : NamesComponent name) : Reaches known d (.named name)
  | along {name : String} {c : KnownClass} {target : Target} (hnode : known.node? d name = some c)
      (hmem : target ∈ known.targets name c.supertypes c.starImports)
      (h : Reaches known d target) : Reaches known d (.named name)

/-- A class with a target that leads to a component. -/
def LeadsOn (known : ClassHierarchy) (d : Declaration) (owner : String) : Prop :=
  ∃ c target, known.node? d owner = some c ∧
    target ∈ known.targets owner c.supertypes c.starImports ∧ Reaches known d target

theorem LeadsOn.reaches {owner : String} (h : LeadsOn known d owner) :
    Reaches known d (.named owner) := by
  obtain ⟨c, target, hnode, hmem, hreach⟩ := h
  exact .along hnode hmem hreach

theorem StarHit.leadsOn {owner : String} (h : StarHit known d owner) : LeadsOn known d owner := by
  obtain ⟨hnode, hmem, hplain, hstar, himported, hpackage⟩ := h
  refine ⟨_, .component, hnode, mem_targets_iff.mpr ⟨_, hmem, ?_⟩, .component⟩
  exact mem_targetsOf_iff.mpr ⟨hplain, .inr ⟨hstar, _, himported, (if_pos hpackage).symm⟩⟩

theorem Edge.leadsOn {owner name : String} (h : Edge known d owner name)
    (hname : Reaches known d (.named name)) : LeadsOn known d owner := by
  cases h with
  | supertype hnode hmem hplain =>
    refine ⟨_, _, hnode, mem_targets_iff.mpr ⟨_, hmem, ?_⟩, hname⟩
    exact mem_targetsOf_iff.mpr ⟨hplain, .inl rfl⟩
  | @starImport c t star hnode hmem hplain hstar himported =>
    -- The search takes a component package for a component and does not look at the member.
    by_cases hpackage : star ∈ componentPackages
    · exact StarHit.leadsOn (.intro hnode hmem hplain hstar himported hpackage)
    · refine ⟨_, _, hnode, mem_targets_iff.mpr ⟨t, hmem, ?_⟩, hname⟩
      exact mem_targetsOf_iff.mpr ⟨hplain, .inr ⟨hstar, star, himported, (if_neg hpackage).symm⟩⟩

/-- A target of this name leads to a component if a path from the name does. -/
theorem reaches_named_iff {name : String} :
    Reaches known d (.named name) ↔
      ∃ stop, ReflTransGen (Edge known d) name stop ∧
        (NamesComponent stop ∨ StarHit known d stop) := by
  constructor
  · intro h
    generalize htarget : Target.named name = target at h
    induction h generalizing name with
    | component => cases htarget
    | here h =>
      cases htarget
      exact ⟨_, .refl, .inl h⟩
    | along hnode hmem _ ih =>
      cases htarget
      rcases starHit_or_edge_of_mem_targets hnode hmem with ⟨-, hhit⟩ | ⟨next, rfl, hedge⟩
      · exact ⟨_, .refl, .inr hhit⟩
      · obtain ⟨stop, hpath, hstop⟩ := ih rfl
        exact ⟨stop, .head hedge hpath, hstop⟩
  · rintro ⟨stop, hpath, hstop⟩
    induction hpath using ReflTransGen.head_induction_on with
    | refl => exact hstop.elim .here fun hhit => hhit.leadsOn.reaches
    | head hedge _ ih => exact (hedge.leadsOn ih).reaches

/-! ## The search -/

/-- A target that needs no further look once the names in `visited` have been followed. -/
def Settled (known : ClassHierarchy) (d : Declaration) (visited : List String) (target : Target) :
    Prop :=
  ∃ name, target = .named name ∧ ¬NamesComponent name ∧
    (name ∈ visited ∨ known.node? d name = none)

/-- Where the names in `visited` lead is settled, except for the targets in `work`. -/
def Followed (known : ClassHierarchy) (d : Declaration) (visited : List String)
    (work : List Target) : Prop :=
  ∀ name ∈ visited, ∀ c, known.node? d name = some c →
    ∀ target ∈ known.targets name c.supertypes c.starImports,
      target ∈ work ∨ Settled known d visited target

theorem Settled.mono {visited visited' : List String} {target : Target}
    (h : Settled known d visited target) (hsub : visited ⊆ visited') :
    Settled known d visited' target := by
  obtain ⟨name, rfl, hname, hdone⟩ := h
  exact ⟨name, rfl, hname, hdone.imp (@hsub name) id⟩

/-- A settled target can be taken off the list. -/
theorem Followed.drop {visited : List String} {target : Target} {work : List Target}
    (h : Followed known d visited (target :: work)) (hsettled : Settled known d visited target) :
    Followed known d visited work := by
  intro name hname c hnode t ht
  rcases h name hname c hnode t ht with hmem | hdone
  · rcases List.mem_cons.mp hmem with rfl | hmem
    · exact .inr hsettled
    · exact .inl hmem
  · exact .inr hdone

/-- Following a name puts where it leads on the list. -/
theorem Followed.follow {visited : List String} {name : String} {c : KnownClass}
    {work : List Target} (h : Followed known d visited (.named name :: work))
    (hname : ¬NamesComponent name) (hnode : known.node? d name = some c) :
    Followed known d (name :: visited)
      (known.targets name c.supertypes c.starImports ++ work) := by
  intro other hother c' hnode' t ht
  rcases List.mem_cons.mp hother with rfl | hother
  · cases hnode.symm.trans hnode'
    exact .inl (List.mem_append_left _ ht)
  · rcases h other hother c' hnode' t ht with hmem | hdone
    · rcases List.mem_cons.mp hmem with rfl | hmem
      · exact .inr ⟨name, rfl, hname, .inl List.mem_cons_self⟩
      · exact .inl (List.mem_append_right _ hmem)
    · exact .inr (hdone.mono (List.subset_cons_self _ _))

/-- With nothing left on the list, a settled target leads nowhere. -/
theorem not_reaches_of_settled {visited : List String} (h : Followed known d visited [])
    {target : Target} (hsettled : Settled known d visited target) : ¬Reaches known d target := by
  intro hreach
  induction hreach with
  | component =>
    obtain ⟨name, heq, -⟩ := hsettled
    cases heq
  | here hname =>
    obtain ⟨name, heq, hnot, -⟩ := hsettled
    cases heq
    exact hnot hname
  | along hnode hmem _ ih =>
    obtain ⟨name, heq, -, hdone⟩ := hsettled
    cases heq
    have hvisited := hdone.resolve_right (by simp [hnode])
    exact ih ((h _ hvisited _ hnode _ hmem).resolve_left List.not_mem_nil)

/-- The search finds nothing only if it could follow everything on its list to the end. -/
theorem exists_followed_of_not_leadsToComponent {visited : List String} {work : List Target}
    (hfalse : known.leadsToComponent visited work = false) (hself : d.qualifiedName ∈ visited)
    (hfollowed : Followed known d visited work) :
    ∃ visited', visited ⊆ visited' ∧ Followed known d visited' [] ∧
      ∀ target ∈ work, Settled known d visited' target := by
  fun_induction leadsToComponent known visited work with
  | case1 visited => exact ⟨visited, List.Subset.refl _, hfollowed, by simp⟩
  | case2 => cases hfalse
  | case3 => cases hfalse
  | case4 visited name work hname hvisited ih =>
    have hsettled : Settled known d visited (.named name) :=
      ⟨name, rfl, mt (isComponentName_iff name).mpr hname, .inl (by simpa using hvisited)⟩
    obtain ⟨visited', hsub, hdone, hwork⟩ := ih hfalse hself (hfollowed.drop hsettled)
    exact ⟨visited', hsub, hdone, List.forall_mem_cons.mpr ⟨hsettled.mono hsub, hwork⟩⟩
  | case5 visited name work hname hvisited hunknown ih =>
    have hne : name ≠ d.qualifiedName := by
      rintro rfl
      exact hvisited (by simpa using hself)
    have hsettled : Settled known d visited (.named name) :=
      ⟨name, rfl, mt (isComponentName_iff name).mpr hname,
        .inr ((node?_of_ne hne).trans hunknown)⟩
    obtain ⟨visited', hsub, hdone, hwork⟩ := ih hfalse hself (hfollowed.drop hsettled)
    exact ⟨visited', hsub, hdone, List.forall_mem_cons.mpr ⟨hsettled.mono hsub, hwork⟩⟩
  | case6 visited name work hname hvisited c hfound ih =>
    have hne : name ≠ d.qualifiedName := by
      rintro rfl
      exact hvisited (by simpa using hself)
    have hnot := mt (isComponentName_iff name).mpr hname
    obtain ⟨visited', hsub, hdone, hwork⟩ :=
      ih hfalse (List.mem_cons_of_mem _ hself)
        (hfollowed.follow hnot ((node?_of_ne hne).trans hfound))
    refine ⟨visited', List.Subset.trans (List.subset_cons_self _ _) hsub, hdone, ?_⟩
    refine List.forall_mem_cons.mpr ⟨⟨name, rfl, hnot, .inl (hsub List.mem_cons_self)⟩, ?_⟩
    exact fun target hmem => hwork target (List.mem_append_right _ hmem)

/-- What the search finds is there. -/
theorem exists_reaches_of_leadsToComponent {visited : List String} {work : List Target}
    (htrue : known.leadsToComponent visited work = true) (hself : d.qualifiedName ∈ visited) :
    ∃ target ∈ work, Reaches known d target := by
  fun_induction leadsToComponent known visited work with
  | case1 => cases htrue
  | case2 => exact ⟨.component, List.mem_cons_self, .component⟩
  | case3 visited name work hname =>
    exact ⟨_, List.mem_cons_self, .here ((isComponentName_iff name).mp hname)⟩
  | case4 visited name work hname hvisited ih =>
    obtain ⟨target, hmem, hreach⟩ := ih htrue hself
    exact ⟨target, List.mem_cons_of_mem _ hmem, hreach⟩
  | case5 visited name work hname hvisited hunknown ih =>
    obtain ⟨target, hmem, hreach⟩ := ih htrue hself
    exact ⟨target, List.mem_cons_of_mem _ hmem, hreach⟩
  | case6 visited name work hname hvisited c hfound ih =>
    have hne : name ≠ d.qualifiedName := by
      rintro rfl
      exact hvisited (by simpa using hself)
    obtain ⟨target, hmem, hreach⟩ := ih htrue (List.mem_cons_of_mem _ hself)
    rcases List.mem_append.mp hmem with hmem | hmem
    · exact ⟨_, List.mem_cons_self, .along ((node?_of_ne hne).trans hfound) hmem hreach⟩
    · exact ⟨target, List.mem_cons_of_mem _ hmem, hreach⟩

/-- The search from a declaration finds out whether its own node leads on to a component. -/
theorem isComponent_iff_leadsOn : known.isComponent d = true ↔ LeadsOn known d d.qualifiedName := by
  unfold isComponent
  constructor
  · intro h
    obtain ⟨target, hmem, hreach⟩ := exists_reaches_of_leadsToComponent h List.mem_cons_self
    exact ⟨_, target, node?_self, hmem, hreach⟩
  · rintro ⟨c, target, hself, hmem, hreach⟩
    cases node?_self.symm.trans hself
    by_contra hfalse
    have hstart : Followed known d [d.qualifiedName]
        (known.targets d.qualifiedName d.supertypes d.starImports) := by
      intro name hname c hnode t ht
      obtain rfl := List.mem_singleton.mp hname
      cases node?_self.symm.trans hnode
      exact .inl ht
    obtain ⟨visited', -, hdone, hwork⟩ := exists_followed_of_not_leadsToComponent
      (Bool.not_eq_true _ ▸ hfalse) List.mem_cons_self hstart
    exact not_reaches_of_settled hdone (hwork target hmem) hreach

/-- A node leads on to a component if a path with at least one edge ends at one, or any path at a
class that may take a supertype from a component package. -/
theorem leadsOn_iff {owner : String} :
    LeadsOn known d owner ↔
      (∃ name, TransGen (Edge known d) owner name ∧ NamesComponent name) ∨
        ∃ stop, ReflTransGen (Edge known d) owner stop ∧ StarHit known d stop := by
  constructor
  · rintro ⟨c, target, hnode, hmem, hreach⟩
    rcases starHit_or_edge_of_mem_targets hnode hmem with ⟨-, hhit⟩ | ⟨next, rfl, hedge⟩
    · exact .inr ⟨owner, .refl, hhit⟩
    · obtain ⟨stop, hpath, hname | hhit⟩ := reaches_named_iff.mp hreach
      · exact .inl ⟨stop, .head' hedge hpath, hname⟩
      · exact .inr ⟨stop, .head hedge hpath, hhit⟩
  · rintro (⟨name, hpath, hname⟩ | ⟨stop, hpath, hhit⟩)
    · obtain ⟨next, hedge, hrest⟩ := TransGen.head'_iff.mp hpath
      exact hedge.leadsOn (reaches_named_iff.mpr ⟨name, hrest, .inl hname⟩)
    · rcases ReflTransGen.cases_head hpath with rfl | ⟨next, hedge, hrest⟩
      · exact hhit.leadsOn
      · exact hedge.leadsOn (reaches_named_iff.mpr ⟨stop, hrest, .inr hhit⟩)

/-! ## Orders do not matter -/

/-- Two classes with the same supertypes and star imports, in whatever order. -/
structure SameClass (c c' : KnownClass) : Prop where
  supertypes : c.supertypes.Perm c'.supertypes
  starImports : c.starImports.Perm c'.starImports

/-- Two declarations, each with its hierarchy, that differ only in the order of supertypes and of
star imports. -/
structure SameClasses (known : ClassHierarchy) (d : Declaration) (known' : ClassHierarchy)
    (d' : Declaration) : Prop where
  name : d.qualifiedName = d'.qualifiedName
  self : SameClass ⟨d.supertypes, d.starImports⟩ ⟨d'.supertypes, d'.starImports⟩
  others : ∀ name, Option.Rel SameClass (known.find? name) (known'.find? name)

theorem SameClass.symm {c c' : KnownClass} (h : SameClass c c') : SameClass c' c :=
  ⟨h.supertypes.symm, h.starImports.symm⟩

namespace SameClasses

variable {known' : ClassHierarchy} {d' : Declaration}

theorem symm (h : SameClasses known d known' d') : SameClasses known' d' known d where
  name := h.name.symm
  self := h.self.symm
  others name := by
    have hname := h.others name
    generalize known.find? name = c at hname ⊢
    generalize known'.find? name = c' at hname ⊢
    cases hname with
    | some hc => exact .some hc.symm
    | none => exact .none

theorem node?_eq_some (h : SameClasses known d known' d') {name : String} {c : KnownClass}
    (hnode : known.node? d name = some c) :
    ∃ c', known'.node? d' name = some c' ∧ SameClass c c' := by
  by_cases hself : name = d.qualifiedName
  · subst hself
    cases node?_self.symm.trans hnode
    exact ⟨_, h.name ▸ node?_self, h.self⟩
  · rw [node?_of_ne hself] at hnode
    have hname := h.others name
    rw [hnode] at hname
    cases hfind : known'.find? name with
    | none => simp [hfind] at hname
    | some c' =>
      rw [hfind] at hname
      cases hname with
      | some hc => exact ⟨c', (node?_of_ne (h.name ▸ hself)).trans hfind, hc⟩

theorem contains_eq (h : SameClasses known d known' d') (name : String) :
    known.contains name = known'.contains name := by
  have hname := h.others name
  unfold find? at hname
  unfold contains Keyed.contains
  generalize known.byName.get? name = c at hname ⊢
  generalize known'.byName.get? name = c' at hname ⊢
  cases hname <;> rfl

theorem mayComeByStar (h : SameClasses known d known' d') {owner : String} {t : TypeExpr}
    (hstar : known.MayComeByStar owner t) : known'.MayComeByStar owner t :=
  ⟨(h.contains_eq t.name).symm.trans hstar.1, hstar.2⟩

theorem edge (h : SameClasses known d known' d') {owner name : String}
    (hedge : Edge known d owner name) : Edge known' d' owner name := by
  cases hedge with
  | supertype hnode hmem hplain =>
    obtain ⟨c', hnode', hc⟩ := h.node?_eq_some hnode
    exact .supertype hnode' (hc.supertypes.subset hmem) hplain
  | starImport hnode hmem hplain hstar himported =>
    obtain ⟨c', hnode', hc⟩ := h.node?_eq_some hnode
    exact .starImport hnode' (hc.supertypes.subset hmem) hplain (h.mayComeByStar hstar)
      (hc.starImports.subset himported)

theorem starHit (h : SameClasses known d known' d') {owner : String}
    (hhit : StarHit known d owner) : StarHit known' d' owner := by
  obtain ⟨hnode, hmem, hplain, hstar, himported, hpackage⟩ := hhit
  obtain ⟨c', hnode', hc⟩ := h.node?_eq_some hnode
  exact .intro hnode' (hc.supertypes.subset hmem) hplain (h.mayComeByStar hstar)
    (hc.starImports.subset himported) hpackage

theorem leadsOn (h : SameClasses known d known' d') (hlead : LeadsOn known d d.qualifiedName) :
    LeadsOn known' d' d'.qualifiedName := by
  rw [← h.name, leadsOn_iff]
  refine (leadsOn_iff.mp hlead).imp ?_ ?_
  · exact fun ⟨name, hpath, hname⟩ => ⟨name, TransGen.mono (fun _ _ => h.edge) _ _ hpath, hname⟩
  · exact fun ⟨stop, hpath, hhit⟩ =>
      ⟨stop, ReflTransGen.mono (fun _ _ => h.edge) _ _ hpath, h.starHit hhit⟩

end SameClasses

theorem SameClass.refl (c : KnownClass) : SameClass c c :=
  ⟨.refl _, .refl _⟩

/-- The order of supertypes and of star imports does not make a declaration a component. -/
theorem SameClasses.isComponent_eq {known' : ClassHierarchy} {d' : Declaration}
    (h : SameClasses known d known' d') : known'.isComponent d' = known.isComponent d := by
  rw [Bool.eq_iff_iff, isComponent_iff_leadsOn, isComponent_iff_leadsOn]
  exact ⟨h.symm.leadsOn, h.leadsOn⟩

/-! ## The main statement -/

/-- A declaration is a component exactly when a path with at least one edge leads from it to a name
that is a component by itself, or any path to a class that may take a supertype from a component
package; and the answer is the same for every order of supertypes and of star imports. -/
theorem isComponent_iff_reachable (known : ClassHierarchy) (d : Declaration) :
    (known.isComponent d = true ↔
      (∃ name, TransGen (Edge known d) d.qualifiedName name ∧ NamesComponent name) ∨
        ∃ owner, ReflTransGen (Edge known d) d.qualifiedName owner ∧ StarHit known d owner) ∧
    ∀ known' d', SameClasses known d known' d' → known'.isComponent d' = known.isComponent d := by
  refine ⟨isComponent_iff_leadsOn.trans leadsOn_iff, fun known' d' hsame => ?_⟩
  rw [Bool.eq_iff_iff, isComponent_iff_leadsOn, isComponent_iff_leadsOn]
  exact ⟨hsame.symm.leadsOn, hsame.leadsOn⟩

end ComponentWiring.ClassHierarchy

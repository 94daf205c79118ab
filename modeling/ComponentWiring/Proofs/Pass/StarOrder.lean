import ComponentWiring.Proofs.Pass.UnitOrder
import ComponentWiring.Proofs.Source.StarOrder

/-!
The order of star imports does not matter to a pass. Where the source files of two passes say the
same apart from the order in which each class, declaration and property lists its star imports
(`Pass.SaysSame`), the passes return the same (`runSources_eq_of_saysSame`): what is a component
does not depend on that order, and the import lines of a generated file are sorted.
-/

namespace ComponentWiring

open Source

/-! ## Declarations and properties -/

theorem ImportBlock.starNames_perm {stars stars' : List String} (h : stars.Perm stars') :
    (starNames stars).Perm (starNames stars') :=
  (h.filter _).map _

namespace Declaration.StarPerm

variable {d d' : Declaration}

theorem qualifiedName_eq (h : d.StarPerm d') : d'.qualifiedName = d.qualifiedName := by
  cases h
  rfl

theorem location_eq (h : d.StarPerm d') : d'.location = d.location := by
  cases h
  rfl

theorem withDefaults (h : d.StarPerm d') (recovered : Keyed String) :
    (d.withDefaults recovered).StarPerm (d'.withDefaults recovered) := by
  obtain ⟨hstars⟩ := h
  exact .intro hstars

/-- The file of a class is the same. -/
theorem plan_eq (h : d.StarPerm d') (exportable : Bool) (mode : Mode) (policy : Policy) :
    FactoryFile.plan d' exportable mode policy = FactoryFile.plan d exportable mode policy := by
  obtain @⟨stars, hstars⟩ := h
  have hnames (viaFactory : Bool) :
      FactoryFile.importNames { d with starImports := stars } exportable viaFactory mode =
        FactoryFile.importNames d exportable viaFactory mode :=
    Keyed.sortedNames_eq_of_perm <| (((ImportBlock.starNames_perm hstars).symm.append_left
      _).append_right _).append_right _
  unfold FactoryFile.plan
  simp only [hnames]
  rfl

theorem isComponent_eq {known known' : ClassHierarchy} (h : d.StarPerm d')
    (hknown : ∀ name, Option.Rel ClassHierarchy.SameClass (known.find? name) (known'.find? name)) :
    known'.isComponent d' = known.isComponent d := by
  have hname := h.qualifiedName_eq.symm
  obtain ⟨hstars⟩ := h
  exact ClassHierarchy.SameClasses.isComponent_eq ⟨hname, ⟨.refl _, hstars⟩, hknown⟩

end Declaration.StarPerm

/-! ## Classes -/

/-- Declarations that differ at most in the order of star imports, also with their defaults. -/
structure Pending.StarPerm (p p' : Pending) : Prop where
  declaration : p.declaration.StarPerm p'.declaration
  withDefaults : p.withDefaults.StarPerm p'.withDefaults

namespace Pass

variable {pass : Pass} {known known' : ClassHierarchy}

theorem resultOf_eq_of_starPerm {p p' : Pending} (h : p.StarPerm p')
    (hknown : ∀ name, Option.Rel ClassHierarchy.SameClass (known.find? name) (known'.find? name))
    (earlier : List String) :
    pass.resultOf known' earlier p' = pass.resultOf known earlier p := by
  have hname := h.declaration.qualifiedName_eq
  have hcomponent := h.declaration.isComponent_eq hknown
  unfold resultOf
  simp only [hname, hcomponent, h.declaration.location_eq, h.withDefaults.plan_eq,
    h.withDefaults.qualifiedName_eq, h.withDefaults.location_eq]

theorem classResults_eq_of_starPerm {pending pending' : List Pending}
    (h : List.Forall₂ Pending.StarPerm pending pending')
    (hknown : ∀ name, Option.Rel ClassHierarchy.SameClass (known.find? name) (known'.find? name))
    (earlier : List String) :
    pass.classResults known' earlier pending' = pass.classResults known earlier pending := by
  induction h generalizing earlier with
  | nil => rfl
  | cons hp _ ih =>
    rw [classResults, classResults, resultOf_eq_of_starPerm hp hknown,
      hp.declaration.qualifiedName_eq, ih]

end Pass

/-! ## Bound properties -/

namespace Property.StarPerm

variable {p p' : Property}

theorem owner_eq (h : p.StarPerm p') : (p'.package, p'.owner) = (p.package, p.owner) := by
  cases h
  rfl

theorem bindable_eq (h : p.StarPerm p') : p'.bindable = p.bindable := by
  cases h
  rfl

theorem function_eq (h : p.StarPerm p') (owner : String) (kind : SignalKind)
    (element : TypeExpr) :
    BindingFile.function owner p' kind element = BindingFile.function owner p kind element := by
  cases h
  rfl

theorem importNames_perm (h : p.StarPerm p') (kind : SignalKind) (element : TypeExpr) :
    (BindingFile.importNames p kind element).Perm (BindingFile.importNames p' kind element) := by
  obtain ⟨hstars⟩ := h
  exact (ImportBlock.starNames_perm hstars).append_left _

end Property.StarPerm

namespace BindingFile

variable {properties properties' : List Property}

/-- Accepted properties that differ at most in the order of star imports. -/
def AcceptedStarPerm (a a' : Property × SignalKind × TypeExpr) : Prop :=
  a.1.StarPerm a'.1 ∧ a'.2 = a.2

theorem accepted_starPerm (h : List.Forall₂ Property.StarPerm properties properties') :
    List.Forall₂ AcceptedStarPerm (accepted properties) (accepted properties') := by
  refine List.rel_filterMap (fun p p' hp => ?_) h
  rw [hp.bindable_eq]
  cases p.bindable with
  | error fault => exact .none
  | ok found => exact .some ⟨hp, rfl⟩

theorem rejections_eq_of_starPerm (h : List.Forall₂ Property.StarPerm properties properties') :
    rejections properties' = rejections properties := by
  induction h with
  | nil => rfl
  | cons hp _ ih =>
    unfold rejections at ih ⊢
    rw [List.filterMap_cons, List.filterMap_cons, hp.bindable_eq, ih]
    cases hp
    rfl

/-- The file of the properties of a class is the same. -/
theorem plan?_eq_of_starPerm (h : List.Forall₂ Property.StarPerm properties properties')
    (owner : String) : plan? owner properties' = plan? owner properties := by
  have hpackage : properties'.head?.map (·.package) = properties.head?.map (·.package) := by
    cases h with
    | nil => rfl
    | cons hp _ =>
      cases hp
      rfl
  have hgood := accepted_starPerm h
  unfold plan?
  generalize accepted properties = good at hgood ⊢
  generalize accepted properties' = good' at hgood ⊢
  have hempty : good'.isEmpty = good.isEmpty := by
    cases hgood <;> rfl
  have hfunctions : (good'.map fun a => function owner a.1 a.2.1 a.2.2) =
      good.map fun a => function owner a.1 a.2.1 a.2.2 := by
    clear hempty
    induction hgood with
    | nil => rfl
    | cons hfound _ ih => rw [List.map_cons, List.map_cons, ih, hfound.2, hfound.1.function_eq]
  have hnames : (good.flatMap fun a => importNames a.1 a.2.1 a.2.2).Perm
      (good'.flatMap fun a => importNames a.1 a.2.1 a.2.2) := by
    clear hempty hfunctions
    induction hgood with
    | nil => exact .refl _
    | cons hfound _ ih =>
      rw [List.flatMap_cons, List.flatMap_cons, hfound.2]
      exact (hfound.1.importNames_perm _ _).append ih
  simp only [hpackage, hempty, hfunctions, Keyed.sortedNames_eq_of_perm hnames]

theorem allGenerated_eq_of_starPerm (h : List.Forall₂ Property.StarPerm properties properties') :
    allGenerated properties' = allGenerated properties := by
  have howners : owners properties' = owners properties := by
    have hpairs : (properties'.map fun p => (p.package, p.owner)) =
        properties.map fun p => (p.package, p.owner) := by
      induction h with
      | nil => rfl
      | cons hp _ ih => rw [List.map_cons, List.map_cons, ih, hp.owner_eq]
    unfold owners
    rw [hpairs]
  have hgroup (package owner : String) : List.Forall₂ Property.StarPerm
      (properties.filter fun p => p.package == package && p.owner == owner)
      (properties'.filter fun p => p.package == package && p.owner == owner) := by
    refine List.rel_filter (fun p p' hp => ?_) h
    cases hp
    rfl
  unfold allGenerated generated
  simp only [howners, plan?_eq_of_starPerm (hgroup _ _), rejections_eq_of_starPerm (hgroup _ _)]

end BindingFile

/-! ## Source files -/

namespace Pass

variable {pass : Pass} {source source' : SourceText} {sources sources' : List SourceText}

/-- Two source files say the same, apart from the order in which they list star imports. -/
structure SaysSame (pass : Pass) (source source' : SourceText) : Prop where
  findings : (pass.findings source).StarPerm (pass.findings source')
  defaults : ∀ name, defaultExpressions name source'.text.toList =
    defaultExpressions name source.text.toList

theorem SaysSame.refl (pass : Pass) (source : SourceText) : pass.SaysSame source source :=
  ⟨.refl _, fun _ => rfl⟩

theorem SaysSame.pendingIn (h : pass.SaysSame source source') :
    List.Forall₂ Pending.StarPerm (pass.pendingIn source) (pass.pendingIn source') := by
  refine List.rel_map (fun d d' hd => ⟨hd, ?_⟩) h.findings.declarations
  have hname : d'.name = d.name := by
    cases hd
    rfl
  have hdefaults : defaultExpressions d'.name source'.text.toList =
      defaultExpressions d.name source.text.toList := by
    rw [hname, h.defaults]
  show (d.withDefaults _).StarPerm (d'.withDefaults _)
  rw [hdefaults]
  exact hd.withDefaults _

theorem rel_hierarchyIn (h : List.Forall₂ pass.SaysSame sources sources') (name : String) :
    Option.Rel ClassHierarchy.SameClass ((pass.hierarchyIn sources).find? name)
      ((pass.hierarchyIn sources').find? name) := by
  rw [find?_hierarchyIn, find?_hierarchyIn]
  have hreverse := List.rel_reverse h
  generalize sources.reverse = latest at hreverse ⊢
  generalize sources'.reverse = latest' at hreverse ⊢
  induction hreverse with
  | nil => exact .none
  | @cons source source' _ _ hsource _ ih =>
    have hknown := hsource.findings.known name
    rw [List.findSome?_cons, List.findSome?_cons]
    generalize (pass.findings source).hierarchy.find? name = c at hknown ⊢
    generalize (pass.findings source').hierarchy.find? name = c' at hknown ⊢
    cases hknown with
    | none => exact ih
    | some hc => exact .some hc

/-- Where the source files of two passes say the same apart from the order in which they list star
imports, the passes return the same. -/
theorem runSources_eq_of_saysSame (h : List.Forall₂ pass.SaysSame sources sources') :
    pass.runSources sources' = pass.runSources sources := by
  have hpending : List.Forall₂ Pending.StarPerm (sources.flatMap pass.pendingIn)
      (sources'.flatMap pass.pendingIn) := List.rel_flatMap h fun _ _ => SaysSame.pendingIn
  have hproperties : List.Forall₂ Property.StarPerm
      (sources.flatMap fun source => (pass.findings source).properties)
      (sources'.flatMap fun source => (pass.findings source).properties) :=
    List.rel_flatMap h fun _ _ hsource => hsource.findings.properties
  have hdiagnostics : (sources'.flatMap fun source => (pass.findings source).diagnostics) =
      sources.flatMap fun source => (pass.findings source).diagnostics := by
    clear hpending hproperties
    induction h with
    | nil => rfl
    | cons hsource _ ih =>
      rw [List.flatMap_cons, List.flatMap_cons, ih, hsource.findings.diagnostics]
  rw [runSources_eq_ok, runSources_eq_ok, hdiagnostics,
    classResults_eq_of_starPerm hpending (rel_hierarchyIn h),
    BindingFile.allGenerated_eq_of_starPerm hproperties]

end Pass

end ComponentWiring

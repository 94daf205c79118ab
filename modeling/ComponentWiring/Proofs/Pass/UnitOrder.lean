import ComponentWiring.Proofs.Model.ReportOrder
import ComponentWiring.Proofs.Pass.Accounting
import ComponentWiring.Proofs.Source.ClassFindings

/-!
The order of source files does not matter, as long as no class name stands for classes of different
files. Then the hierarchy is the same in every order (`hierarchyIn_eq_of_perm`), every class comes
to the same result, whatever files were read before its own (`classResults_perm`), and the marked
properties of a class stand in one file and so in one order (`allGenerated_eq_of_perm`).
`runSources_perm` puts the three together.
-/

namespace ComponentWiring

open Text Source

/-! ## Names of a file -/

namespace Pass

variable (pass : Pass)

/-- Whether a source file declares a class of a name. -/
def Indexes (source : SourceText) (name : String) : Prop :=
  (pass.findings source).hierarchy.contains name = true

/-- No class name stands for classes of different files. -/
def IndexedApart (sources : List SourceText) : Prop :=
  ∀ u ∈ sources, ∀ v ∈ sources, ∀ name, pass.Indexes u name → pass.Indexes v name → u = v

variable {pass} {source : SourceText}

theorem indexes_of_mem_declarations {d : Declaration}
    (h : d ∈ (pass.findings source).declarations) : pass.Indexes source d.qualifiedName := by
  obtain ⟨c, hc, hd⟩ := List.mem_filterMap.mp h
  obtain ⟨outcome, houtcome, hd⟩ := Option.bind_eq_some_iff.mp hd
  obtain ⟨found, -, rfl⟩ := List.mem_map.mp hc
  cases outcome with
  | error diagnostic => cases hd
  | ok d' =>
    cases hd
    rw [qualifiedName_of_outcome houtcome]
    exact contains_ofFindings hc

theorem indexes_of_mem_properties {p : Property} (h : p ∈ (pass.findings source).properties) :
    pass.Indexes source (qualify p.package p.owner) := by
  obtain ⟨c, hc, hp⟩ := List.mem_flatMap.mp h
  obtain ⟨found, -, rfl⟩ := List.mem_map.mp hc
  rw [qualify_of_mem_properties hp]
  exact contains_ofFindings hc

theorem IndexedApart.of_perm {sources sources' : List SourceText} (hperm : sources.Perm sources')
    (h : pass.IndexedApart sources) : pass.IndexedApart sources' := fun u hu v hv =>
  h u (hperm.mem_iff.mpr hu) v (hperm.mem_iff.mpr hv)

end Pass

/-! ## The hierarchy -/

theorem findSome?_eq_of_perm {α β : Type} {f : α → Option β} {l l' : List α} (hperm : l.Perm l')
    (hone : ∀ a ∈ l, ∀ b ∈ l, (f a).isSome = true → (f b).isSome = true → a = b) :
    l.findSome? f = l'.findSome? f := by
  induction hperm with
  | nil => rfl
  | cons a _ ih =>
    rw [List.findSome?_cons, List.findSome?_cons, ih fun b hb c hc =>
      hone b (List.mem_cons_of_mem _ hb) c (List.mem_cons_of_mem _ hc)]
  | swap a b l =>
    simp only [List.findSome?_cons]
    cases ha : f a with
    | none => rfl
    | some x =>
      cases hb : f b with
      | none => rfl
      | some y =>
        have hsame := hone a (by simp) b (by simp) (by simp [ha]) (by simp [hb])
        rw [← ha, ← hb, hsame]
  | trans hperm _ ih ih' =>
    exact (ih hone).trans
      (ih' fun a ha b hb => hone a (hperm.mem_iff.mpr ha) b (hperm.mem_iff.mpr hb))

namespace Pass

variable {pass : Pass} {sources sources' : List SourceText}

theorem find?_foldl_merge (units : List FileFindings) (known : ClassHierarchy) (name : String) :
    (units.foldl (fun hierarchy unit => hierarchy.merge unit.hierarchy) known).find? name =
      (units.reverse.findSome? (·.hierarchy.find? name)).or (known.find? name) := by
  induction units generalizing known with
  | nil => rfl
  | cons unit units ih =>
    have hmerge : (known.merge unit.hierarchy).find? name =
        (unit.hierarchy.find? name).or (known.find? name) := Keyed.get?_union ..
    rw [List.foldl_cons, ih, hmerge, List.reverse_cons, List.findSome?_append, Option.or_assoc,
      List.findSome?_singleton]

/-- The hierarchy of source files knows of a class what the last file says that declares it. -/
theorem find?_hierarchyIn (pass : Pass) (sources : List SourceText) (name : String) :
    (pass.hierarchyIn sources).find? name =
      sources.reverse.findSome? fun source => (pass.findings source).hierarchy.find? name := by
  rw [hierarchyIn, hierarchyOf, find?_foldl_merge, ← List.map_reverse, List.findSome?_map]
  exact Option.or_none

theorem hierarchyIn_eq_of_perm (hperm : sources.Perm sources')
    (hapart : pass.IndexedApart sources) :
    pass.hierarchyIn sources = pass.hierarchyIn sources' := by
  have hfind (name : String) :
      (pass.hierarchyIn sources).find? name = (pass.hierarchyIn sources').find? name := by
    rw [find?_hierarchyIn, find?_hierarchyIn]
    refine findSome?_eq_of_perm ?_ fun u hu v hv => ?_
    · exact (List.reverse_perm _).trans (hperm.trans (List.reverse_perm _).symm)
    · exact hapart u (List.mem_reverse.mp hu) v (List.mem_reverse.mp hv) name
  exact congrArg ClassHierarchy.mk (Keyed.ext_get? hfind)

end Pass

/-! ## Classes -/

namespace Pass

variable {pass : Pass} {hierarchy : ClassHierarchy}

/-- Declarations come to the same results behind others with other names. -/
theorem classResults_append_comm (earlier : List String) {ps qs : List Pending}
    (hapart : ∀ name ∈ Pending.names ps, name ∉ Pending.names qs) (rest : List Pending) :
    (pass.classResults hierarchy earlier (ps ++ (qs ++ rest))).Perm
      (pass.classResults hierarchy earlier (qs ++ (ps ++ rest))) := by
  have hps : pass.classResults hierarchy (Pending.names qs ++ earlier) ps =
      pass.classResults hierarchy earlier ps :=
    classResults_congr fun name hname => by
      rw [List.mem_append, or_iff_right (hapart name hname)]
  have hqs : pass.classResults hierarchy (Pending.names ps ++ earlier) qs =
      pass.classResults hierarchy earlier qs :=
    classResults_congr fun name hname => by
      rw [List.mem_append, or_iff_right fun hps => hapart name hps hname]
  have hrest :
      pass.classResults hierarchy (Pending.names qs ++ (Pending.names ps ++ earlier)) rest =
        pass.classResults hierarchy (Pending.names ps ++ (Pending.names qs ++ earlier)) rest :=
    classResults_congr fun name _ => by
      simp only [List.mem_append]
      exact or_left_comm
  simp only [classResults_append, hps, hqs, hrest]
  exact List.perm_append_comm_assoc ..

theorem indexes_of_mem_names {source : SourceText} {name : String}
    (h : name ∈ Pending.names (pass.pendingIn source)) : pass.Indexes source name := by
  obtain ⟨p, hp, rfl⟩ := List.mem_map.mp h
  obtain ⟨d, hd, rfl⟩ := List.mem_map.mp hp
  exact indexes_of_mem_declarations hd

theorem classResults_perm (hierarchy : ClassHierarchy) {sources sources' : List SourceText}
    (hperm : sources.Perm sources') (hapart : pass.IndexedApart sources) (earlier : List String) :
    (pass.classResults hierarchy earlier (sources.flatMap pass.pendingIn)).Perm
      (pass.classResults hierarchy earlier (sources'.flatMap pass.pendingIn)) := by
  induction hperm generalizing earlier with
  | nil => exact .refl _
  | cons u _ ih =>
    rw [List.flatMap_cons, List.flatMap_cons, classResults_append, classResults_append]
    exact (ih (fun v hv w hw => hapart v (List.mem_cons_of_mem _ hv) w (List.mem_cons_of_mem _ hw))
      _).append_left _
  | swap u v rest =>
    -- The same file twice may well declare the same names twice.
    by_cases hsame : u = v
    · rw [hsame]
    · simp only [List.flatMap_cons]
      refine classResults_append_comm earlier (fun name hv hu => hsame ?_) _
      exact hapart u (by simp) v (by simp) name (indexes_of_mem_names hu) (indexes_of_mem_names hv)
  | trans hperm _ ih ih' => exact (ih hapart earlier).trans (ih' (hapart.of_perm hperm) earlier)

end Pass

/-! ## Bound properties -/

theorem nodup_eraseDups {α : Type} [BEq α] [LawfulBEq α] : ∀ l : List α, l.eraseDups.Nodup
  | [] => List.nodup_nil
  | a :: l => by
    rw [List.eraseDups_cons, List.nodup_cons]
    refine ⟨fun h => ?_, nodup_eraseDups _⟩
    simpa using List.mem_eraseDups.mp h
termination_by l => l.length
decreasing_by exact Nat.lt_succ_of_le (List.length_filter_le _ _)

theorem flatMap_eq_of_perm {α β : Type} {f : α → List β} {l l' : List α} (hperm : l.Perm l')
    (hone : ∀ a ∈ l, ∀ b ∈ l, a = b ∨ f a = [] ∨ f b = []) : l.flatMap f = l'.flatMap f := by
  induction hperm with
  | nil => rfl
  | cons a _ ih =>
    rw [List.flatMap_cons, List.flatMap_cons, ih fun b hb c hc =>
      hone b (List.mem_cons_of_mem _ hb) c (List.mem_cons_of_mem _ hc)]
  | swap a b l =>
    rcases hone a (by simp) b (by simp) with rfl | ha | hb
    · rfl
    · simp [ha]
    · simp [hb]
  | trans hperm _ ih ih' =>
    exact (ih hone).trans
      (ih' fun a ha b hb => hone a (hperm.mem_iff.mpr ha) b (hperm.mem_iff.mpr hb))

namespace BindingFile

open Std

/-- The order of classes by package and then by name. -/
def compareOwners : String × String → String × String → Ordering :=
  compareLex (compareOn Prod.fst) (compareOn Prod.snd)

instance : TransCmp compareOwners :=
  inferInstanceAs (TransCmp (compareLex (compareOn Prod.fst) (compareOn Prod.snd)))

theorem eq_of_compareOwners_eq {a b : String × String} (h : compareOwners a b = .eq) : a = b := by
  obtain ⟨hpackage, howner⟩ := Ordering.then_eq_eq.mp h
  exact Prod.ext (LawfulEqOrd.eq_of_compare hpackage) (LawfulEqOrd.eq_of_compare howner)

theorem mem_owners_iff {properties : List Property} {package owner : String} :
    (package, owner) ∈ owners properties ↔
      ∃ p ∈ properties, p.package = package ∧ p.owner = owner := by
  rw [owners, List.mem_mergeSort, List.mem_eraseDups, List.mem_map]
  simp only [Prod.mk.injEq]

theorem nodup_owners (properties : List Property) : (owners properties).Nodup :=
  ((List.mergeSort_perm _ _).nodup_iff).mpr (nodup_eraseDups _)

theorem owners_eq_of_perm {properties properties' : List Property}
    (hperm : properties.Perm properties') : owners properties = owners properties' := by
  have hclasses : ((properties.map fun p => (p.package, p.owner)).eraseDups).Perm
      ((properties'.map fun p => (p.package, p.owner)).eraseDups) := by
    refine (List.perm_ext_iff_of_nodup (nodup_eraseDups _) (nodup_eraseDups _)).mpr fun key => ?_
    rw [List.mem_eraseDups, List.mem_eraseDups, (hperm.map _).mem_iff]
  exact mergeSort_eq_of_perm compareOwners hclasses fun a _ b _ => eq_of_compareOwners_eq

end BindingFile

namespace Pass

variable {pass : Pass} {sources sources' : List SourceText}

theorem indexes_of_filter_ne_nil {source : SourceText} {package owner : String}
    (h : (pass.findings source).properties.filter
      (fun p => p.package == package && p.owner == owner) ≠ []) :
    pass.Indexes source (qualify package owner) := by
  obtain ⟨p, hp⟩ := List.exists_mem_of_ne_nil _ h
  obtain ⟨hmem, hgroup⟩ := List.mem_filter.mp hp
  obtain ⟨rfl, rfl⟩ : p.package = package ∧ p.owner = owner := by simpa using hgroup
  exact indexes_of_mem_properties hmem

theorem allGenerated_eq_of_perm (hperm : sources.Perm sources')
    (hapart : pass.IndexedApart sources) :
    BindingFile.allGenerated (sources.flatMap fun source => (pass.findings source).properties) =
      BindingFile.allGenerated
        (sources'.flatMap fun source => (pass.findings source).properties) := by
  have hgroup (package owner : String) :
      (sources.flatMap fun source => (pass.findings source).properties).filter
        (fun p => p.package == package && p.owner == owner) =
      (sources'.flatMap fun source => (pass.findings source).properties).filter
        (fun p => p.package == package && p.owner == owner) := by
    rw [List.filter_flatMap, List.filter_flatMap]
    -- Two files that have properties of the class declare it, so they are the same.
    refine flatMap_eq_of_perm hperm fun u hu v hv => or_iff_not_imp_right.mpr fun hboth => ?_
    obtain ⟨hu', hv'⟩ := not_or.mp hboth
    exact hapart u hu v hv _ (indexes_of_filter_ne_nil hu') (indexes_of_filter_ne_nil hv')
  unfold BindingFile.allGenerated
  simp only [hgroup, BindingFile.owners_eq_of_perm (hperm.flatMap_right _)]

end Pass

/-! ## Severities -/

/-- What is reported about a property says why it cannot be bound. -/
theorem BindingFile.exists_fault_of_mem {properties : List Property} {diagnostic : Diagnostic}
    (h : diagnostic ∈ (allGenerated properties).diagnostics) :
    ∃ (fault : PropertyFault) (p : Property), diagnostic = fault.diagnostic p := by
  obtain ⟨part, hpart, h⟩ := List.mem_flatMap.mp h
  obtain ⟨owner, -, rfl⟩ := List.mem_map.mp hpart
  obtain ⟨p, -, h⟩ := List.mem_filterMap.mp h
  split at h
  · next fault _ =>
    cases h
    exact ⟨fault, p, rfl⟩
  · cases h

/-- So it is an error. -/
theorem BindingFile.severity_of_mem {properties : List Property} {diagnostic : Diagnostic}
    (h : diagnostic ∈ (allGenerated properties).diagnostics) : diagnostic.severity = .error := by
  obtain ⟨fault, p, rfl⟩ := exists_fault_of_mem h
  rfl

namespace Pass

variable {pass : Pass} {hierarchy : ClassHierarchy} {diagnostic : Diagnostic}

/-- What is reported about a class when it is read is an error. -/
theorem severity_of_mem_readings {sources : List SourceText}
    (h : diagnostic ∈ (pass.readings sources).filterMap reported?) :
    diagnostic.severity = .error := by
  obtain ⟨reading, hreading, h⟩ := List.mem_filterMap.mp h
  obtain ⟨c, hc, hreading⟩ := List.mem_filterMap.mp hreading
  obtain ⟨source, -, hc⟩ := List.mem_flatMap.mp hc
  obtain ⟨head, hhead, rfl⟩ := List.mem_map.mp hc
  obtain ⟨reading', hreading', hreads⟩ :=
    pass.exists_reading? (c := ⟨source, head⟩) (List.mem_filter.mp hhead).2
  cases hreading.symm.trans hreading'
  cases hreads with
  | refused refusal =>
    cases h
    rfl
  | declared d => cases h

/-- What is reported about a class when its code is generated says why there is none. -/
theorem exists_refusal_of_mem_classResults {earlier : List String} {pending : List Pending}
    (h : diagnostic ∈ (pass.classResults hierarchy earlier pending).filterMap
      ClassResult.diagnostic?) :
    ∃ (refusal : Refusal) (subject : String) (location : Location),
      diagnostic = refusal.diagnostic subject location := by
  obtain ⟨result, hresult, hreport⟩ := List.mem_filterMap.mp h
  obtain ⟨p, -, earlier', -, rfl⟩ := exists_resultOf_of_mem hresult
  cases hp : pass.resultOf hierarchy earlier' p with
  | report diagnostic' =>
    obtain ⟨refusal, rfl, -⟩ := (settles_resultOf pass hierarchy earlier' p).report _ hp
    rw [hp] at hreport
    cases hreport
    exact ⟨refusal, _, _, rfl⟩
  | _ =>
    rw [hp] at hreport
    cases hreport

/-- So it is an error. -/
theorem severity_of_mem_classResults {earlier : List String} {pending : List Pending}
    (h : diagnostic ∈ (pass.classResults hierarchy earlier pending).filterMap
      ClassResult.diagnostic?) : diagnostic.severity = .error := by
  obtain ⟨refusal, subject, location, rfl⟩ := exists_refusal_of_mem_classResults h
  rfl

end Pass

/-! ## The whole pass -/

namespace Pass

/-- The order of source files does not matter: as long as no class name stands for classes of
different files, a pass over the same files in another order returns the same files, and a report
that reads the same. -/
theorem runSources_perm (pass : Pass) {sources sources' : List SourceText}
    (hperm : sources.Perm sources') (hapart : pass.IndexedApart sources) :
    ∃ out out', pass.runSources sources = .ok out ∧ pass.runSources sources' = .ok out' ∧
      out.artifacts.Perm out'.artifacts ∧ out.diagnostics.sorted = out'.diagnostics.sorted := by
  have hclasses := classResults_perm (pass.hierarchyIn sources) hperm hapart []
  have hreports := hperm.flatMap_right fun source => (pass.findings source).diagnostics
  refine ⟨_, _, runSources_eq_ok pass sources, runSources_eq_ok pass sources', ?_, ?_⟩
  · rw [← hierarchyIn_eq_of_perm hperm hapart, ← allGenerated_eq_of_perm hperm hapart]
    exact (hclasses.filterMap _).append_right _
  · rw [← hierarchyIn_eq_of_perm hperm hapart, ← allGenerated_eq_of_perm hperm hapart]
    refine Diagnostics.sorted_eq_of_perm .error
      ((hreports.append (hclasses.filterMap _)).append_right _) fun d hd => ?_
    rcases List.mem_append.mp hd with hd | hd
    · rcases List.mem_append.mp hd with hd | hd
      · exact severity_of_mem_readings (reports_eq pass sources ▸ hd)
      · exact severity_of_mem_classResults hd
    · exact BindingFile.severity_of_mem hd

/-- A marked class that is a component by way of a class in another file. -/
def badgeFile : SourceText :=
  ⟨"app/Badge.kt", "package app\n\n@GenDsl\nclass Badge(val title: String) : Panel()\n"⟩

/-- The class in the other file. -/
def panelFile : SourceText :=
  ⟨"app/Panel.kt",
    "package app\n\nimport com.vaadin.flow.component.html.Div\n\nopen class Panel : Div()\n"⟩

theorem runSources_perm_twoFiles :
    ∃ out out', ({} : Pass).runSources [badgeFile, panelFile] = .ok out ∧
      ({} : Pass).runSources [panelFile, badgeFile] = .ok out' ∧
      out.artifacts.Perm out'.artifacts ∧ out.diagnostics.sorted = out'.diagnostics.sorted := by
  have hbadge : (({} : Pass).findings badgeFile).hierarchy.byName.keys = ["app.Badge"] := by
    decide +kernel
  have hpanel : (({} : Pass).findings panelFile).hierarchy.byName.keys = ["app.Panel"] := by
    decide +kernel
  have hapart : ({} : Pass).IndexedApart [badgeFile, panelFile] := by
    intro u hu v hv name hname hname'
    rw [Indexes, ClassHierarchy.contains, ← Keyed.mem_keys_iff] at hname hname'
    simp only [List.mem_cons, List.not_mem_nil, or_false] at hu hv
    rcases hu with rfl | rfl <;> rcases hv with rfl | rfl <;> simp_all
  exact runSources_perm {} (List.Perm.swap ..) hapart

end Pass

end ComponentWiring

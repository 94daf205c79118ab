import ComponentWiring.Proofs.Pass.UnitOrder

/-!
What is generated for bound properties. The properties are grouped by class, so that a file is made
from the properties of one class alone, in their order, and of these only from the ones that can be
bound. `generateAll_binds` says that what is generated is `classFiles`: nothing is lost, nothing is
made twice and nothing of a property that cannot be bound gets into a file. Without these properties
the files are the same.

The files are named by their classes. These are the classes of the properties that can be bound, in
order (`owners_filter_bindable`), and each file is made from what its class accepts
(`plan?_ofOwner`), its import lines as well as its functions. So `Binds` leaves no choice
(`Binds.eq_classFiles`).
-/

namespace ComponentWiring.BindingFile

variable {properties : List Property} {key : String × String}

/-! ## Groups -/

/-- Taking out the members with one key after the other takes out all of them. -/
theorem flatMap_filter_perm {α κ : Type} [BEq κ] [LawfulBEq κ] (keyOf : α → κ) {keys : List κ}
    (hkeys : keys.Nodup) {items : List α} (hcovered : ∀ a ∈ items, keyOf a ∈ keys) :
    (keys.flatMap fun k => items.filter fun a => keyOf a == k).Perm items := by
  induction keys generalizing items with
  | nil =>
    rw [List.eq_nil_iff_forall_not_mem.mpr fun a ha => List.not_mem_nil (hcovered a ha)]
    rfl
  | cons k keys ih =>
    obtain ⟨hk, hkeys⟩ := List.nodup_cons.mp hkeys
    have hothers : ∀ k' ∈ keys, (items.filter fun a => keyOf a == k') =
        (items.filter fun a => !(keyOf a == k)).filter fun a => keyOf a == k' := by
      intro k' hk'
      rw [List.filter_filter]
      refine List.filter_congr fun a _ => ?_
      cases hkey : keyOf a == k' with
      | false => rfl
      | true =>
        have hne : (keyOf a == k) = false := by
          rw [eq_of_beq hkey, beq_eq_false_iff_ne]
          rintro rfl
          exact hk hk'
        rw [hne]
        rfl
    have hrest : ∀ a ∈ items.filter (fun a => !(keyOf a == k)), keyOf a ∈ keys := by
      intro a ha
      obtain ⟨ha, hne⟩ := List.mem_filter.mp ha
      exact (List.mem_cons.mp (hcovered a ha)).resolve_left (by simpa using hne)
    rw [List.flatMap_cons, List.flatMap_congr hothers]
    exact ((ih hkeys hrest).append_left _).trans (List.filter_append_perm _ _)

/-- The properties of a class, in their order. -/
def ofOwner (properties : List Property) (key : String × String) : List Property :=
  properties.filter fun p => (p.package, p.owner) == key

theorem mem_ofOwner_iff {p : Property} :
    p ∈ ofOwner properties key ↔ p ∈ properties ∧ (p.package, p.owner) = key := by
  rw [ofOwner, List.mem_filter, beq_iff_eq]

/-- Every property belongs to one class. -/
theorem flatMap_ofOwner_perm (properties : List Property) :
    ((owners properties).flatMap (ofOwner properties)).Perm properties :=
  flatMap_filter_perm _ (nodup_owners properties)
    fun p hp => mem_owners_iff.mpr ⟨p, hp, rfl, rfl⟩

/-- The classes come in order. -/
theorem pairwise_owners (properties : List Property) :
    (owners properties).Pairwise fun a b => compareOwners a b = .lt := by
  have hsorted : (owners properties).Pairwise fun a b => (compareOwners a b).isLE = true :=
    pairwise_mergeSort compareOwners _
  refine (hsorted.and (nodup_owners properties)).imp fun {a b} ⟨hle, hne⟩ => ?_
  cases hcompare : compareOwners a b with
  | lt => rfl
  | eq => exact absurd (eq_of_compareOwners_eq hcompare) hne
  | gt => simp [hcompare] at hle

theorem ne_of_compareOwners_eq_lt {a b : String × String} (h : compareOwners a b = .lt) :
    a ≠ b := by
  rintro rfl
  have hself : compareOwners a a = .eq := Std.ReflCmp.compare_self
  rw [hself] at h
  cases h

/-- Classes in order are determined by which classes they are. -/
theorem eq_of_pairwise_compareOwners {keys keys' : List (String × String)}
    (h : keys.Pairwise fun a b => compareOwners a b = .lt)
    (h' : keys'.Pairwise fun a b => compareOwners a b = .lt)
    (hmem : ∀ key, key ∈ keys ↔ key ∈ keys') : keys = keys' := by
  have hperm : keys.Perm keys' := (List.perm_ext_iff_of_nodup (h.imp ne_of_compareOwners_eq_lt)
    (h'.imp ne_of_compareOwners_eq_lt)).mpr hmem
  refine hperm.eq_of_pairwise (fun a b _ _ hab hba => ?_) h h'
  exact absurd hba (Std.OrientedCmp.not_lt_of_lt hab)

/-! ## Properties that can be bound -/

/-- Only the properties that can be bound are accepted. -/
theorem accepted_filter_bindable (properties : List Property) :
    accepted (properties.filter (·.bindable.isOk)) = accepted properties := by
  rw [accepted, List.filterMap_filter, accepted]
  congr 1
  funext p
  cases p.bindable <;> rfl

theorem rejections_filter_bindable (properties : List Property) :
    rejections (properties.filter (·.bindable.isOk)) = [] := by
  rw [rejections, List.filterMap_filter, List.filterMap_eq_nil_iff]
  intro p _
  cases p.bindable <;> rfl

theorem accepted_ne_nil_iff :
    accepted properties ≠ [] ↔ ∃ p ∈ properties, p.bindable.isOk = true := by
  rw [accepted, ne_eq, List.filterMap_eq_nil_iff]
  push Not
  refine exists_congr fun p => and_congr_right fun _ => ?_
  cases p.bindable <;> simp [Except.toOption, Except.isOk, Except.toBool]

theorem ofOwner_filter_bindable (properties : List Property) (key : String × String) :
    ofOwner (properties.filter (·.bindable.isOk)) key =
      (ofOwner properties key).filter (·.bindable.isOk) :=
  List.filter_comm _ _ _

/-- The classes of the properties that can be bound. -/
theorem mem_bindable_owners_iff : key ∈ owners (properties.filter (·.bindable.isOk)) ↔
    ∃ p ∈ properties, p.bindable.isOk = true ∧ (p.package, p.owner) = key := by
  obtain ⟨package, owner⟩ := key
  rw [mem_owners_iff]
  simp only [List.mem_filter, Prod.mk.injEq, and_assoc]

/-- A class has a property that can be bound if it accepts one. -/
theorem mem_owners_filter_bindable_iff :
    key ∈ owners (properties.filter (·.bindable.isOk)) ↔
      accepted (ofOwner properties key) ≠ [] := by
  rw [mem_bindable_owners_iff, accepted_ne_nil_iff]
  simp only [mem_ofOwner_iff, and_assoc]
  exact exists_congr fun p => and_congr_right fun _ => and_comm

/-- Of the classes in order, those with a property that can be bound. -/
theorem owners_filter_bindable (properties : List Property) :
    owners (properties.filter (·.bindable.isOk)) =
      (owners properties).filter fun key => !(accepted (ofOwner properties key)).isEmpty := by
  refine eq_of_pairwise_compareOwners (pairwise_owners _) ((pairwise_owners properties).filter _) ?_
  intro key
  have hall : accepted (ofOwner properties key) ≠ [] → key ∈ owners properties := by
    intro h
    obtain ⟨p, hp, -⟩ := accepted_ne_nil_iff.mp h
    obtain ⟨hmem, rfl⟩ := mem_ofOwner_iff.mp hp
    exact mem_owners_iff.mpr ⟨p, hmem, rfl, rfl⟩
  rw [mem_owners_filter_bindable_iff, List.mem_filter]
  simp only [Bool.not_eq_true', List.isEmpty_eq_false_iff]
  exact ⟨fun h => ⟨hall h, h⟩, fun h => h.2⟩

/-! ## The files -/

/-- The import lines for the given properties in a file of `package`. -/
def importBlock (package : String) (good : List (Property × SignalKind × TypeExpr)) :
    List String :=
  ImportBlock.lines
    (sortedNames (good.flatMap fun (p, kind, element) => importNames p kind element)) package

/-- The file of a class that accepts the given properties. -/
def classFile (key : String × String) (good : List (Property × SignalKind × TypeExpr)) :
    BindingFile where
  package := key.1
  owner := key.2
  imports := importBlock key.1 good
  functions := good.map fun (p, kind, element) => function key.2 p kind element

/-- The file of a class is made from the properties that it accepts. -/
theorem plan?_ofOwner (properties : List Property) (key : String × String) :
    plan? key.2 (ofOwner properties key) =
      if (accepted (ofOwner properties key)).isEmpty then none
      else some (classFile key (accepted (ofOwner properties key))) := by
  unfold plan?
  simp only
  split
  · rfl
  · next hsome =>
    have hpackage : ((ofOwner properties key).head?.map (·.package)).getD "" = key.1 := by
      cases hgroup : ofOwner properties key with
      | nil => simp [hgroup, accepted] at hsome
      | cons p others =>
        have hp : p ∈ ofOwner properties key := hgroup ▸ List.mem_cons_self
        rw [← (mem_ofOwner_iff.mp hp).2]
        rfl
    rw [hpackage]
    rfl

/-- The files of the classes. -/
def classFiles (properties : List Property) : List BindingFile :=
  (owners (properties.filter (·.bindable.isOk))).map fun key =>
    classFile key (accepted (ofOwner properties key))

theorem allGenerated_eq (properties : List Property) :
    allGenerated properties = ⟨(classFiles properties).map laidOut,
      (owners properties).flatMap fun key => rejections (ofOwner properties key)⟩ := by
  have hparts : allGenerated properties =
      ⟨(owners properties).flatMap fun key =>
          ((plan? key.2 (ofOwner properties key)).map laidOut).toList,
        (owners properties).flatMap fun key => rejections (ofOwner properties key)⟩ := by
    rw [allGenerated, List.flatMap_map, List.flatMap_map]
    rfl
  rw [hparts, ← List.filterMap_eq_flatMap_toList, classFiles, owners_filter_bindable, List.map_map,
    ← List.filterMap_eq_map, List.filterMap_filter]
  congr 2
  funext key
  rw [plan?_ofOwner]
  cases (accepted (ofOwner properties key)).isEmpty <;> rfl

theorem classFiles_filter_bindable (properties : List Property) :
    classFiles (properties.filter (·.bindable.isOk)) = classFiles properties := by
  unfold classFiles
  simp only [List.filter_filter, Bool.and_self, ofOwner_filter_bindable, accepted_filter_bindable]

/-- Files that bind properties: which there are and in what order, and what each of them holds. -/
structure Binds (properties : List Property) (files : List BindingFile) : Prop where
  /-- The classes come in order, each once. -/
  ordered : (files.map fun file => (file.package, file.owner)).Pairwise
    fun a b => compareOwners a b = .lt
  /-- They are the classes with a property that can be bound. -/
  classes : ∀ key, key ∈ files.map (fun file => (file.package, file.owner)) ↔
    ∃ p ∈ properties, p.bindable.isOk = true ∧ (p.package, p.owner) = key
  /-- The functions of a file bind the properties of the class that can be bound, in their order. -/
  functions : ∀ file ∈ files, file.functions =
    (accepted (ofOwner properties (file.package, file.owner))).map
      fun (p, kind, element) => function file.owner p kind element
  /-- The import lines of a file are those for these properties. -/
  imports : ∀ file ∈ files, file.imports =
    importBlock file.package (accepted (ofOwner properties (file.package, file.owner)))

theorem classFiles_bind (properties : List Property) :
    Binds properties (classFiles properties) := by
  have hkeys : ((classFiles properties).map fun file => (file.package, file.owner)) =
      owners (properties.filter (·.bindable.isOk)) := by
    rw [classFiles, List.map_map]
    exact List.map_id' _
  refine ⟨?_, ?_, ?_, ?_⟩
  · rw [hkeys]
    exact pairwise_owners _
  · intro key
    rw [hkeys]
    exact mem_bindable_owners_iff
  · intro file hfile
    obtain ⟨key, -, rfl⟩ := List.mem_map.mp hfile
    rfl
  · intro file hfile
    obtain ⟨key, -, rfl⟩ := List.mem_map.mp hfile
    rfl

/-- The files that bind properties are determined by them. -/
theorem Binds.eq_classFiles {files : List BindingFile} (h : Binds properties files) :
    files = classFiles properties := by
  have hfile : ∀ file ∈ files, file = classFile (file.package, file.owner)
      (accepted (ofOwner properties (file.package, file.owner))) := by
    rintro ⟨package, owner, imports, functions⟩ hmem
    rw [classFile, BindingFile.mk.injEq]
    exact ⟨rfl, rfl, h.imports _ hmem, h.functions _ hmem⟩
  have hkeys : files.map (fun file => (file.package, file.owner)) =
      owners (properties.filter (·.bindable.isOk)) := by
    refine eq_of_pairwise_compareOwners h.ordered (pairwise_owners _) fun key => ?_
    rw [h.classes, mem_bindable_owners_iff]
  rw [classFiles, ← hkeys, List.map_map]
  exact (List.map_id' files).symm.trans (List.map_congr_left hfile)

/-- Every property that cannot be bound is reported once. -/
theorem diagnostics_allGenerated_perm (properties : List Property) :
    (allGenerated properties).diagnostics.Perm (rejections properties) := by
  have hrejections : ((owners properties).flatMap fun key => rejections (ofOwner properties key)) =
      rejections ((owners properties).flatMap (ofOwner properties)) :=
    (List.filterMap_flatMap ..).symm
  rw [allGenerated_eq, hrejections]
  exact (flatMap_ofOwner_perm properties).filterMap _

/-- What is generated are the files of the classes, laid out. They bind exactly the properties that
can be bound; each of the others is reported once, as an error. Without the others the files are the
same, and nothing is reported. -/
theorem generateAll_binds (properties : List Property) :
    let files := classFiles properties
    Binds properties files ∧ ∃ diagnostics : Diagnostics,
      generateAll properties = .ok ⟨files.map laidOut, diagnostics⟩ ∧
        diagnostics.Perm (rejections properties) ∧
        (∀ diagnostic ∈ diagnostics, diagnostic.severity = .error) ∧
        generateAll (properties.filter (·.bindable.isOk)) = .ok ⟨files.map laidOut, []⟩ := by
  refine ⟨classFiles_bind properties, (allGenerated properties).diagnostics, ?_,
    diagnostics_allGenerated_perm properties, fun diagnostic => severity_of_mem, ?_⟩
  · rw [generateAll_eq_ok, allGenerated_eq]
  · have hnone : ((owners (properties.filter (·.bindable.isOk))).flatMap fun key =>
        rejections (ofOwner (properties.filter (·.bindable.isOk)) key)) = [] := by
      rw [List.flatMap_eq_nil_iff]
      intro key _
      rw [ofOwner_filter_bindable, rejections_filter_bindable]
    rw [generateAll_eq_ok, allGenerated_eq, classFiles_filter_bindable, hnone]

/-- A property of a class that can be bound, if it is visible. -/
def countProperty (name : String) (visibility : Visibility) : Property where
  owner := "Card"
  package := "app"
  name := name
  type := { name := SignalKind.mutable.bindableName, arguments := [{ name := "kotlin.Int" }] }
  visibility := visibility

/-- A hidden property in front is reported and keeps no other one from being bound. -/
theorem generateAll_binds_hidden : ∃ diagnostics : Diagnostics,
    generateAll [countProperty "secret" .inClass, countProperty "shown" .everywhere] =
        .ok ⟨[laidOut ⟨"app", "Card", ["import com.github.fenrur.signal.MutableSignal"],
          [⟨"Card", "shown", "MutableSignal<Int>"⟩]⟩], diagnostics⟩ ∧
      diagnostics.map (·.subject) = ["Card.secret"] := by
  have hfiles : classFiles [countProperty "secret" .inClass, countProperty "shown" .everywhere] =
      [⟨"app", "Card", ["import com.github.fenrur.signal.MutableSignal"],
        [⟨"Card", "shown", "MutableSignal<Int>"⟩]⟩] := by decide +kernel
  have hsubjects : (rejections [countProperty "secret" .inClass,
      countProperty "shown" .everywhere]).map (·.subject) = ["Card.secret"] := by decide +kernel
  obtain ⟨-, diagnostics, hgenerated, hperm, -, -⟩ :=
    generateAll_binds [countProperty "secret" .inClass, countProperty "shown" .everywhere]
  rw [hfiles] at hgenerated
  exact ⟨diagnostics, hgenerated, List.perm_singleton.mp (hsubjects ▸ hperm.map _)⟩

end ComponentWiring.BindingFile

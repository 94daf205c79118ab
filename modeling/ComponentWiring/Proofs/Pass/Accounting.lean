import Mathlib.Data.List.Forall2
import ComponentWiring.Proofs.Pass.Results

/-!
Every marked class is accounted for. Reading turns every marked class head into a declaration or a
structural error, and generation turns every declaration into a file, a structural error or nothing.
A `Ledger` lists what becomes of each, and `exists_ledger` says that a pass over source files always
has one and returns, besides the results for bound properties, just what the ledger lists.
-/

namespace ComponentWiring

open Text Source FactoryFile

/-! ## Marked classes -/

/-- Whether code is generated for the class at a head. -/
def Source.ClassHead.isMarked (head : ClassHead) : Bool :=
  !head.has "companion" && carriesMarker head.annotations classMarker

/-- The head of a marked class, and the file in which it stands. -/
structure MarkedClass where
  source : SourceText
  head : Occurrence ClassHead

/-- The marked classes of a source file, in order. -/
def MarkedClass.allIn (source : SourceText) : List MarkedClass :=
  ((classHeads (blankComments source.text.toList)).filter (·.value.isMarked)).map fun head =>
    ⟨source, head⟩

namespace Pass

variable (pass : Pass)

/-- What a source file shares with the classes in it. -/
def context (source : SourceText) : FileContext :=
  let masked := blankComments source.text.toList
  ⟨source.path, masked, Imports.ofText masked, pass.convention⟩

/-- What reading makes of a marked class: a structural error about it, or a declaration of it. -/
inductive Reads (c : MarkedClass) : Except Diagnostic Pending → Prop
  | refused (refusal : Refusal) :
    Reads c (.error (refusal.diagnostic
      (qualify (pass.context c.source).imports.package c.head.value.name)
      ((pass.context c.source).locate c.head.stop)))
  | declared (d : Declaration) (hname : d.name = c.head.value.name)
      (hpackage : d.package = (pass.context c.source).imports.package)
      (hlocation : d.location = (pass.context c.source).locate c.head.stop) :
    Reads c (.ok ⟨d, some c.source.text⟩)

/-- What generation makes of a declaration behind the names `earlier`: a file of its class, if the
name is new; a structural error about it, which says that the name is not new or why the generator
refuses it; or nothing, just where the class needs neither factory nor builder. -/
structure Settles (hierarchy : ClassHierarchy) (earlier : List String) (p : Pending)
    (result : ClassResult) : Prop where
  file : ∀ a, result = .file a → p.declaration.qualifiedName ∉ earlier ∧
    a.package = p.declaration.package ∧
    a.fileName = (if hasFactory p.declaration pass.policy then p.declaration.factoryName ++ ".kt"
      else p.declaration.name ++ "Dsl.kt") ∧
    p.withDefaults.artifact? (hierarchy.isComponent p.declaration) pass.mode pass.policy =
      .ok (some a)
  report : ∀ diagnostic, result = .report diagnostic → ∃ refusal : Refusal,
    diagnostic = refusal.diagnostic p.declaration.qualifiedName p.declaration.location ∧
    (p.declaration.qualifiedName ∈ earlier ∧ refusal = .repeatedDeclaration ∨
      p.declaration.qualifiedName ∉ earlier ∧
        p.withDefaults.artifact? (hierarchy.isComponent p.declaration) pass.mode pass.policy =
          .error (.refused p.declaration.qualifiedName refusal))
  nothing : result = .nothing ↔ p.declaration.qualifiedName ∉ earlier ∧
    Valid p.declaration (hierarchy.isComponent p.declaration) pass.mode pass.policy ∧
    p.declaration.injected = [] ∧ hierarchy.isComponent p.declaration = false ∧
    pass.policy = .directConstruction

/-- What becomes of the marked classes of source files. -/
structure Ledger (sources : List SourceText) where
  /-- What reading makes of each marked class. -/
  readings : List (Except Diagnostic Pending)
  /-- What generation makes of each declaration among the readings. -/
  results : List ClassResult
  read : List.Forall₂ pass.Reads (sources.flatMap MarkedClass.allIn) readings
  complete : results.length = (readings.filterMap Except.toOption).length
  settled : ∀ i p result, (readings.filterMap Except.toOption)[i]? = some p →
    results[i]? = some result →
      pass.Settles (pass.hierarchyIn sources)
        (Pending.names ((readings.filterMap Except.toOption).take i)) p result

end Pass

/-- The report of a reading. -/
def reported? : Except Diagnostic Pending → Option Diagnostic
  | .error diagnostic => some diagnostic
  | .ok _ => none

/-! ## Recovered defaults -/

/-- The names and roles of parameters. -/
def Declaration.signature (d : Declaration) : List (String × Role) :=
  d.parameters.map fun p => (p.name, p.role)

/-- Declarations of one class whose parameters have the same names and roles. -/
structure Declaration.SameSignature (d d' : Declaration) : Prop where
  name : d.name = d'.name
  package : d.package = d'.package
  location : d.location = d'.location
  parameters : d.signature = d'.signature

namespace Declaration.SameSignature

variable {d d' : Declaration} {exportable : Bool} {mode : Mode} {policy : Policy}

theorem symm (h : SameSignature d d') : SameSignature d' d :=
  ⟨h.name.symm, h.package.symm, h.location.symm, h.parameters.symm⟩

theorem qualifiedName (h : SameSignature d d') : d.qualifiedName = d'.qualifiedName := by
  rw [Declaration.qualifiedName, Declaration.qualifiedName, h.package, h.name]

theorem names (h : SameSignature d d') :
    d.parameters.map (·.name) = d'.parameters.map (·.name) := by
  simpa [signature, Function.comp_def] using congrArg (List.map Prod.fst) h.parameters

/-- The names of the parameters of one role. -/
theorem names_filter (h : SameSignature d d') (role : Role) :
    (d.parameters.filter (·.role == role)).map (·.name) =
      (d'.parameters.filter (·.role == role)).map (·.name) := by
  have hof (d : Declaration) : ((d.signature.filter (·.2 == role)).map Prod.fst) =
      (d.parameters.filter (·.role == role)).map (·.name) := by
    simp [signature, List.filter_map, Function.comp_def]
  rw [← hof, ← hof, h.parameters]

theorem hasFactory (h : SameSignature d d') (policy : Policy) :
    FactoryFile.hasFactory d policy = FactoryFile.hasFactory d' policy := by
  have hempty : d.injected.isEmpty = d'.injected.isEmpty := by
    rw [← List.isEmpty_map (f := (·.name)), injected, h.names_filter, List.isEmpty_map]
    rfl
  rw [FactoryFile.hasFactory, FactoryFile.hasFactory, hempty]

theorem valid (h : SameSignature d d') (hvalid : Valid d exportable mode policy) :
    Valid d' exportable mode policy := by
  have hparameters : ∀ p ∈ d'.parameters, ∃ q ∈ d.parameters, q.name = p.name := fun p hp =>
    List.mem_map.mp (h.names ▸ List.mem_map_of_mem hp)
  have hexposed : ∀ p ∈ d'.exposed, ∃ q ∈ d.exposed, q.name = p.name := fun p hp =>
    List.mem_map.mp (h.names_filter .exposed ▸ List.mem_map_of_mem hp)
  refine ⟨⟨h.name ▸ hvalid.names.name, fun p hp => ?_, h.names ▸ hvalid.names.distinct⟩,
    fun hexportable p hp => ?_⟩
  · obtain ⟨q, hq, hname⟩ := hparameters p hp
    exact hname ▸ hvalid.names.parameters q hq
  · obtain ⟨q, hq, hname⟩ := hexposed p hp
    exact hname ▸ h.hasFactory policy ▸ hvalid.free hexportable q hq

end Declaration.SameSignature

theorem Pending.sameSignature_withDefaults (p : Pending) :
    p.withDefaults.SameSignature p.declaration := by
  unfold withDefaults
  cases p.source with
  | none => exact ⟨rfl, rfl, rfl, rfl⟩
  | some text =>
    exact ⟨rfl, rfl, rfl, by
      simp [Declaration.signature, Declaration.withDefaults, Function.comp_def]⟩

/-! ## Reading -/

namespace Pass

variable (pass : Pass)

/-- What reading makes of a class. -/
def reading? (c : MarkedClass) : Option (Except Diagnostic Pending) :=
  ((pass.context c.source).findings c.head).outcome.map fun outcome =>
    outcome.map fun d => ⟨d, some c.source.text⟩

theorem exists_reading? {c : MarkedClass} (h : c.head.value.isMarked = true) :
    ∃ reading, pass.reading? c = some reading ∧ pass.Reads c reading := by
  have hmarker : carriesMarker c.head.value.annotations classMarker = true :=
    (Bool.and_eq_true_iff.mp h).2
  unfold reading? FileContext.findings
  simp only [hmarker, if_true]
  split
  · exact ⟨_, rfl, .declared _ rfl rfl rfl⟩
  · next refusal _ => exact ⟨_, rfl, .refused refusal⟩

theorem outcome_findings_eq_none {file : FileContext} {found : Occurrence ClassHead}
    (h : carriesMarker found.value.annotations classMarker = false) :
    (file.findings found).outcome = none := by
  simp [FileContext.findings, h]

/-- What is taken from the outcomes of all classes of a file is taken from the readings of the
marked ones. -/
theorem filterMap_outcomes {α : Type} (source : SourceText)
    (take : Except Diagnostic Declaration → Option α)
    (take' : Except Diagnostic Pending → Option α)
    (htake : ∀ outcome, take' (outcome.map fun d => ⟨d, some source.text⟩) = take outcome) :
    ((((classHeads (blankComments source.text.toList)).filter
      fun found => !found.value.has "companion").map (pass.context source).findings).filterMap
        fun c => c.outcome.bind take) =
      ((MarkedClass.allIn source).filterMap pass.reading?).filterMap take' := by
  rw [MarkedClass.allIn, List.filterMap_map, List.filterMap_map, List.filterMap_filter,
    List.filterMap_filterMap, List.filterMap_filter]
  refine List.filterMap_congr fun found _ => ?_
  have hreading : (pass.reading? ⟨source, found⟩).bind take' =
      ((pass.context source).findings found).outcome.bind take := by
    rw [reading?]
    cases ((pass.context source).findings found).outcome with
    | none => rfl
    | some outcome => exact htake outcome
  simp only [Function.comp_apply, hreading, ClassHead.isMarked]
  -- A class without marker has no outcome, so nothing is lost by leaving it out beforehand.
  cases hmarker : carriesMarker found.value.annotations classMarker with
  | false => simp [outcome_findings_eq_none hmarker]
  | true => rw [Bool.and_true]

theorem diagnostics_findings_eq (source : SourceText) :
    (pass.findings source).diagnostics =
      ((MarkedClass.allIn source).filterMap pass.reading?).filterMap reported? := by
  let take : Except Diagnostic Declaration → Option Diagnostic
    | .error diagnostic => some diagnostic
    | .ok _ => none
  rw [← pass.filterMap_outcomes source take reported? (by rintro (_ | _) <;> rfl), findings,
    FileFindings.read, FileFindings.ofFindings]
  refine List.filterMap_congr fun c _ => ?_
  rcases c.outcome with _ | _ | _ <;> rfl

end Pass

/-! ## Generation -/

namespace Pass

variable {pass : Pass} {hierarchy : ClassHierarchy}

/-- What becomes of a declaration settles it. -/
theorem settles_resultOf (pass : Pass) (hierarchy : ClassHierarchy) (earlier : List String)
    (p : Pending) : pass.Settles hierarchy earlier p (pass.resultOf hierarchy earlier p) := by
  have hsame := p.sameSignature_withDefaults
  have hname : p.withDefaults.qualifiedName = p.declaration.qualifiedName := hsame.qualifiedName
  unfold resultOf
  by_cases hseen : p.declaration.qualifiedName ∈ earlier
  · simp only [List.contains_eq_mem, hseen, decide_true, if_true]
    refine ⟨by simp, fun diagnostic hdiagnostic => ?_, by simp [hseen]⟩
    cases hdiagnostic
    exact ⟨_, rfl, .inl ⟨hseen, rfl⟩⟩
  · simp only [List.contains_eq_mem, hseen, decide_false, Bool.false_eq_true, if_false]
    generalize hcomponent : hierarchy.isComponent p.declaration = exportable
    -- The plan is made with the recovered defaults, the statement is about the plain declaration.
    rcases hplan : plan p.withDefaults exportable pass.mode pass.policy with
      refusal | (_ | file)
    · have hinvalid : ¬Valid p.declaration exportable pass.mode pass.policy := fun hvalid =>
        exists_plan_eq_error_iff.mp ⟨refusal, hplan⟩ (hsame.symm.valid hvalid)
      refine ⟨by simp, fun diagnostic hdiagnostic => ?_, by simp [hcomponent, hinvalid]⟩
      cases hdiagnostic
      refine ⟨refusal, by rw [hname, hsame.location], .inr ⟨hseen, ?_⟩⟩
      rw [hcomponent, Declaration.artifact?_eq, hplan, hname]
    · obtain ⟨hwell, hfactory, hexportable⟩ := plan_eq_ok_none_iff.mp hplan
      have hvalid : Valid p.declaration exportable pass.mode pass.policy :=
        hsame.valid ⟨hwell, by simp [hexportable]⟩
      rw [hsame.hasFactory, hasFactory_eq_false_iff] at hfactory
      exact ⟨by simp, by simp, fun _ => ⟨hseen, hcomponent ▸ hvalid, hfactory.1,
        hcomponent.trans hexportable, hfactory.2⟩, fun _ => rfl⟩
    · obtain ⟨hwell, hwanted, hfree, rfl⟩ := plan_eq_ok_some_iff.mp hplan
      refine ⟨fun a ha => ?_, by simp, ?_⟩
      · cases ha
        refine ⟨hseen, hsame.package, ?_, ?_⟩
        · rw [laidOut, fileName_planned, hsame.hasFactory, Declaration.factoryName, hsame.name,
            Declaration.factoryName]
        · rw [hcomponent]
          exact Declaration.artifact?_eq_ok_some_iff.mpr ⟨_, hplan, rfl⟩
      · simp only [reduceCtorEq, false_iff]
        rintro ⟨-, -, hinjected, hexportable, hpolicy⟩
        have hfactory := hasFactory_eq_false_iff.mpr ⟨hinjected, hpolicy⟩
        rw [← hsame.hasFactory] at hfactory
        simp [hfactory, hcomponent ▸ hexportable] at hwanted

/-- The result of a declaration at its place among others. -/
theorem getElem?_classResults {pending : List Pending} {i : Nat} {p : Pending}
    (h : pending[i]? = some p) :
    (pass.classResults hierarchy [] pending)[i]? =
      some (pass.resultOf hierarchy (Pending.names (pending.take i)) p) := by
  obtain ⟨hi, hp⟩ := List.getElem?_eq_some_iff.mp h
  have hsplit : pending = pending.take i ++ p :: pending.drop (i + 1) := by
    rw [← hp, List.getElem_cons_drop, List.take_append_drop]
  have hlength : (pass.classResults hierarchy [] (pending.take i)).length = i := by
    rw [length_classResults, List.length_take, Nat.min_eq_left hi.le]
  conv_lhs => rw [hsplit, classResults_append, classResults, List.append_nil]
  rw [List.getElem?_append_right hlength.le, hlength, Nat.sub_self, List.getElem?_cons_zero]

end Pass

/-! ## The whole pass -/

namespace Pass

theorem forall₂_filterMap {α β : Type} {f : α → Option β} {R : α → β → Prop} {l : List α}
    (h : ∀ a ∈ l, ∃ b, f a = some b ∧ R a b) : List.Forall₂ R l (l.filterMap f) := by
  induction l with
  | nil => exact .nil
  | cons a l ih =>
    obtain ⟨b, hb, hab⟩ := h a List.mem_cons_self
    rw [List.filterMap_cons_some hb]
    exact .cons hab (ih fun a' ha' => h a' (List.mem_cons_of_mem _ ha'))

variable (pass : Pass) (sources : List SourceText)

/-- What reading makes of the marked classes of source files. -/
def readings : List (Except Diagnostic Pending) :=
  (sources.flatMap MarkedClass.allIn).filterMap pass.reading?

theorem reports_eq :
    (sources.flatMap fun source => (pass.findings source).diagnostics) =
      (pass.readings sources).filterMap reported? := by
  rw [readings, List.filterMap_flatMap, List.filterMap_flatMap]
  exact List.flatMap_congr fun source _ => pass.diagnostics_findings_eq source

/-- The ledger of a pass. -/
def ledger : pass.Ledger sources where
  readings := pass.readings sources
  results := pass.classResults (pass.hierarchyIn sources) []
    ((pass.readings sources).filterMap Except.toOption)
  read := forall₂_filterMap fun c hc => by
    obtain ⟨source, -, hc⟩ := List.mem_flatMap.mp hc
    obtain ⟨head, hhead, rfl⟩ := List.mem_map.mp hc
    exact pass.exists_reading? (List.mem_filter.mp hhead).2
  complete := length_classResults ..
  settled := fun i p result hp hresult => by
    rw [getElem?_classResults hp, Option.some.injEq] at hresult
    exact hresult ▸ settles_resultOf ..

end Pass

end ComponentWiring

import ComponentWiring.Proofs.Code.GeneratedScopes
import ComponentWiring.Proofs.Text.Words
import ComponentWiring.Source.Literal

/-!
Names in copied defaults. A default of an exposed parameter is printed twice as it stands in the
class, in the parameter list of `create` and in that of the builder function. What it may mention
differs: in the class every parameter before its own, in `create` the fields and the exposed
parameters before its own, in the builder the latter only.

A parameter list is `Scoped` if every parameter that a default mentions is in scope there.
`artifact?_copiedDefaults` compares the three lists. If the one of the class is scoped, then so is
that of `create`, and that of the builder is exactly if no default of an exposed parameter mentions
an injected one. The generator does not look into defaults, so that the default of `budget` goes out
of scope.
-/

namespace ComponentWiring

open Text Source

/-! ## What a default mentions -/

/-- A text with blanks in place of its literals. -/
def blankLiterals : LiteralState → List Char → List Char
  | _, [] => []
  | state, c :: cs =>
    (if state = .code ∧ state.step c = .code then c else ' ') :: blankLiterals (state.step c) cs

/-- The words of an expression outside literals. -/
def mentionedNames (expression : String) : List String :=
  (wordRuns (blankLiterals .code expression.toList)).map String.ofList

/-- Whether the default of a parameter mentions a name. -/
def Parameter.Mentions (p : Parameter) (name : String) : Prop :=
  ∃ expression, p.defaultExpression = some expression ∧ name ∈ mentionedNames expression

/-- A parameter list behind the names in `scope`: of the given names, a default mentions only those
in scope and those of the parameters before its own. -/
inductive Scoped (names : List String) : (scope : List String) → List Parameter → Prop
  | nil {scope : List String} : Scoped names scope []
  | cons {scope : List String} {p : Parameter} {ps : List Parameter}
      (mentioned : ∀ name ∈ names, p.Mentions name → name ∈ scope)
      (rest : Scoped names (scope ++ [p.name]) ps) : Scoped names scope (p :: ps)

namespace Scoped

variable {names scope : List String} {p : Parameter} {ps : List Parameter}

theorem cons_iff : Scoped names scope (p :: ps) ↔
    (∀ name ∈ names, p.Mentions name → name ∈ scope) ∧ Scoped names (scope ++ [p.name]) ps :=
  ⟨fun | .cons mentioned rest => ⟨mentioned, rest⟩, fun h => .cons h.1 h.2⟩

/-- Some parameters of a list are scoped among themselves if their defaults mention what is in scope
and those of them that come before. -/
theorem filter_iff (keep : Parameter → Bool) : Scoped names scope (ps.filter keep) ↔
    ∀ before p after, ps = before ++ p :: after → keep p = true → ∀ name ∈ names,
      p.Mentions name → name ∈ scope ++ (before.filter keep).map (·.name) := by
  induction ps generalizing scope with
  | nil => simp [Scoped.nil]
  | cons q ps ih =>
    constructor
    · intro h before p after hps hp name hname hmentions
      rcases List.cons_eq_append_iff.mp hps with ⟨rfl, hq⟩ | ⟨before, rfl, rfl⟩
      · obtain ⟨rfl, rfl⟩ := List.cons.inj hq
        rw [List.filter_cons_of_pos hp] at h
        simpa using (cons_iff.mp h).1 name hname hmentions
      · by_cases hq : keep q = true
        · rw [List.filter_cons_of_pos hq] at h ⊢
          simpa using ih.mp (cons_iff.mp h).2 before p after rfl hp name hname hmentions
        · rw [List.filter_cons_of_neg hq] at h ⊢
          exact ih.mp h before p after rfl hp name hname hmentions
    · intro h
      by_cases hq : keep q = true
      · rw [List.filter_cons_of_pos hq, cons_iff]
        refine ⟨fun name hname hmentions => ?_, ih.mpr ?_⟩
        · simpa using h [] q ps rfl hq name hname hmentions
        · rintro before p after rfl hp name hname hmentions
          have hscope := h (q :: before) p after rfl hp name hname hmentions
          rw [List.filter_cons_of_pos hq] at hscope
          simpa using hscope
      · rw [List.filter_cons_of_neg hq, ih]
        rintro before p after rfl hp name hname hmentions
        have hscope := h (q :: before) p after rfl hp name hname hmentions
        rwa [List.filter_cons_of_neg hq] at hscope

theorem iff_of_split : Scoped names scope ps ↔
    ∀ before p after, ps = before ++ p :: after → ∀ name ∈ names,
      p.Mentions name → name ∈ scope ++ before.map (·.name) := by
  have h : Scoped names scope (ps.filter fun _ => true) ↔ _ := filter_iff _
  simpa using h

end Scoped

/-! ## The parameters of a class -/

namespace Declaration

variable {d : Declaration}

/-- The names of all parameters. -/
def parameterNames (d : Declaration) : List String :=
  d.parameters.map (·.name)

/-- In the defaults of exposed parameters only such parameters are mentioned as are `allowed` behind
the parameters that are declared before. -/
def ExposedMention (d : Declaration) (allowed : List Parameter → Parameter → Prop) : Prop :=
  ∀ before p after, d.parameters = before ++ p :: after → p.role = .exposed →
    ∀ q ∈ d.parameters, p.Mentions q.name → allowed before q

theorem exposedMention_congr {allowed allowed' : List Parameter → Parameter → Prop}
    (h : ∀ before, ∀ q ∈ d.parameters, allowed before q ↔ allowed' before q) :
    d.ExposedMention allowed ↔ d.ExposedMention allowed' :=
  forall₃_congr fun before _ _ => forall₂_congr fun _ _ => forall₂_congr fun q hq =>
    imp_congr_right fun _ => h before q hq

theorem mem_exposed {p : Parameter} : p ∈ d.exposed ↔ p ∈ d.parameters ∧ p.role = .exposed := by
  simp [exposed]

theorem mem_injected {p : Parameter} : p ∈ d.injected ↔ p ∈ d.parameters ∧ p.role = .injected := by
  simp [injected]

section Distinct

variable (h : d.parameterNames.Nodup)

include h

/-- Where names are distinct, parameters can be told by their names. -/
theorem name_mem_map_iff {ps : List Parameter} (hps : ps ⊆ d.parameters) {q : Parameter}
    (hq : q ∈ d.parameters) : q.name ∈ ps.map (·.name) ↔ q ∈ ps := by
  refine ⟨fun hname => ?_, List.mem_map_of_mem⟩
  obtain ⟨p, hp, hsame⟩ := List.mem_map.mp hname
  exact List.inj_on_of_nodup_map h (hps hp) hq hsame ▸ hp

/-- The exposed parameters by themselves are scoped behind some others if their defaults mention
only these and exposed parameters that are declared before. -/
theorem scoped_exposed_iff {others : List Parameter} (hothers : others ⊆ d.parameters) :
    Scoped d.parameterNames (others.map (·.name)) d.exposed ↔
      d.ExposedMention fun before q => q ∈ others ∨ q ∈ before ∧ q.role = .exposed := by
  rw [exposed, Scoped.filter_iff]
  refine forall₃_congr fun before p after => forall_congr' fun hps => ?_
  have hbefore : before.filter (·.role == .exposed) ⊆ d.parameters := by
    intro q hq
    rw [hps]
    exact List.mem_append_left _ (List.mem_of_mem_filter hq)
  simp only [beq_iff_eq, parameterNames, List.forall_mem_map, ← List.map_append]
  refine forall_congr' fun _ => forall₂_congr fun q hq => forall_congr' fun _ => ?_
  rw [name_mem_map_iff h (List.append_subset.mpr ⟨hothers, hbefore⟩) hq]
  simp

theorem scoped_parameters_iff :
    Scoped d.parameterNames [] d.parameters ↔
      ∀ before p after, d.parameters = before ++ p :: after →
        ∀ q ∈ d.parameters, p.Mentions q.name → q ∈ before := by
  rw [Scoped.iff_of_split]
  refine forall₃_congr fun before p after => forall_congr' fun hps => ?_
  have hbefore : before ⊆ d.parameters := by
    rw [hps]
    exact List.subset_append_left ..
  simp only [parameterNames, List.forall_mem_map, List.nil_append]
  refine forall₂_congr fun q hq => forall_congr' fun _ => ?_
  rw [name_mem_map_iff h hbefore hq]

end Distinct

end Declaration

/-! ## The copied defaults -/

/-- What becomes of the names in the defaults of a class, in the code of its file. -/
structure FileCode.CopiesDefaults (code : FileCode) (d : Declaration) (mode : Mode)
    (policy : Policy) : Prop where
  /-- The builder takes the exposed parameters with their defaults. -/
  builder : ∃ builder, code.builder = some builder ∧ builder.parameters =
    (if FactoryFile.hasFactory d policy then [mode.handle.binder] else []) ++
      d.exposed.map Parameter.binder ++ [blockBinder d.name]
  /-- So does `create`, which sees the injected parameters as fields. -/
  create : ∀ factory ∈ code.factory, factory.parameters = d.exposed.map Parameter.binder ∧
    factory.fields = d.injected.map Parameter.field
  /-- What a default may mention in the builder. -/
  builderScope : Scoped d.parameterNames [] d.exposed ↔
    d.ExposedMention fun before q => q ∈ before ∧ q.role = .exposed
  /-- What a default may mention in `create`. -/
  createScope : Scoped d.parameterNames (d.injected.map (·.name)) d.exposed ↔
    d.ExposedMention fun before q => q.role = .injected ∨ q ∈ before
  /-- What that means for a class whose defaults mention only parameters declared before. -/
  ofClass : Scoped d.parameterNames [] d.parameters →
    Scoped d.parameterNames (d.injected.map (·.name)) d.exposed ∧
      (Scoped d.parameterNames [] d.exposed ↔
        ∀ p ∈ d.exposed, ∀ q ∈ d.injected, ¬p.Mentions q.name)

namespace Declaration

open FactoryFile

variable {d : Declaration} {mode : Mode} {policy : Policy}

theorem exposed_or_injected (p : Parameter) : p.role = .exposed ∨ p.role = .injected := by
  cases p.role
  · exact .inr rfl
  · exact .inl rfl

theorem scoped_create_iff (h : d.parameterNames.Nodup) :
    Scoped d.parameterNames (d.injected.map (·.name)) d.exposed ↔
      d.ExposedMention fun before q => q.role = .injected ∨ q ∈ before := by
  have hinjected : d.injected ⊆ d.parameters := fun q hq => (mem_injected.mp hq).1
  rw [scoped_exposed_iff h hinjected]
  refine exposedMention_congr fun before q hq => ?_
  rw [mem_injected]
  rcases exposed_or_injected q with hrole | hrole <;> simp [hq, hrole]

/-- If the defaults of a class mention only parameters that are declared before, then injected
parameters are all that can be missing. -/
theorem scoped_of_class (h : d.parameterNames.Nodup)
    (hclass : Scoped d.parameterNames [] d.parameters) :
    Scoped d.parameterNames (d.injected.map (·.name)) d.exposed ∧
      ((d.ExposedMention fun before q => q ∈ before ∧ q.role = .exposed) ↔
        ∀ p ∈ d.exposed, ∀ q ∈ d.injected, ¬p.Mentions q.name) := by
  have hbefore := (scoped_parameters_iff h).mp hclass
  refine ⟨(scoped_create_iff h).mpr ?_, ?_, ?_⟩
  · intro before p after hps _ q hq hmentions
    exact .inr (hbefore before p after hps q hq hmentions)
  · intro hmention p hp q hq hmentions
    obtain ⟨hp, hexposed⟩ := mem_exposed.mp hp
    obtain ⟨hq, hinjected⟩ := mem_injected.mp hq
    obtain ⟨before, after, hps⟩ := List.append_of_mem hp
    have hrole := (hmention before p after hps hexposed q hq hmentions).2
    rw [hinjected] at hrole
    cases hrole
  · intro hnot before p after hps hexposed q hq hmentions
    have hp : p ∈ d.exposed := mem_exposed.mpr ⟨hps ▸ by simp, hexposed⟩
    refine ⟨hbefore before p after hps q hq hmentions, ?_⟩
    rcases exposed_or_injected q with hrole | hrole
    · exact hrole
    · exact absurd hmentions (hnot p hp q (mem_injected.mpr ⟨hq, hrole⟩))

theorem copiesDefaults_plannedCode (h : WellNamed d) (mode : Mode) (policy : Policy) :
    (plannedCode d true mode policy).CopiesDefaults d mode policy := by
  have hbuilder : Scoped d.parameterNames [] d.exposed ↔
      d.ExposedMention fun before q => q ∈ before ∧ q.role = .exposed := by
    simpa using scoped_exposed_iff h.distinct (List.nil_subset d.parameters)
  refine ⟨⟨builderCode d mode (hasFactory d policy), rfl, rfl⟩, ?_, hbuilder,
    scoped_create_iff h.distinct, ?_⟩
  · intro factory hfactory
    obtain ⟨-, ⟨⟩⟩ := Option.ite_none_right_eq_some.mp hfactory
    exact ⟨rfl, rfl⟩
  · rw [hbuilder]
    exact scoped_of_class h.distinct

/-- The defaults of exposed parameters stand in the generated file as they stand in the class. In
the builder they are in scope exactly if they mention only exposed parameters that are declared
before. If the defaults of the class mention only parameters that are declared before, they are in
scope in `create`, and in the builder exactly if none of them mentions an injected parameter. -/
theorem artifact?_copiedDefaults {a : Artifact}
    (h : d.artifact? true mode policy = .ok (some a)) :
    let code := plannedCode d true mode policy
    a = (ofCode code).laidOut ∧ code.CopiesDefaults d mode policy := by
  intro code
  obtain ⟨hvalid, -⟩ := valid_of_artifact? h
  exact ⟨eq_plannedCode_of_artifact? h, copiesDefaults_plannedCode hvalid.names mode policy⟩

/-- A class with a default that mentions an injected parameter. -/
def budget : Declaration :=
  { name := "Budget"
    package := "app"
    parameters := [
      { name := "accounts", type := { name := "app.Accounts" }, role := .injected },
      { name := "limit", type := { name := "kotlin.Int" }, role := .exposed, hasDefault := true,
        defaultExpression := some "accounts.size" }] }

/-- The code that is generated for `budget`. -/
def budgetCode : FileCode :=
  plannedCode budget true .spring .alwaysFactory

theorem artifact?_budget : budget.artifact? true .spring .alwaysFactory =
    .ok (some (ofCode budgetCode).laidOut) :=
  artifact?_of_plan (by decide +kernel)

theorem artifact?_copiedDefaults_budget :
    budget.artifact? true .spring .alwaysFactory = .ok (some (ofCode budgetCode).laidOut) ∧
      budgetCode.CopiesDefaults budget .spring .alwaysFactory :=
  ⟨artifact?_budget, (artifact?_copiedDefaults artifact?_budget).2⟩

/-- The builder of this class has a default that mentions the injected parameter. -/
theorem budget_outOfScope :
    budget.artifact? true .spring .alwaysFactory = .ok (some (ofCode budgetCode).laidOut) ∧
      budgetCode.builder.map (·.parameters.map Binder.text) = some ["context: ApplicationContext",
        "limit: Int = accounts.size", "block: Budget.() -> Unit = \x7b\x7d"] ∧
      "accounts" ∈ budget.parameterNames ∧ "accounts" ∈ mentionedNames "accounts.size" ∧
      "accounts" ∉ budget.exposed.map (·.name) ∧
      ¬Scoped budget.parameterNames [] budget.exposed := by
  have hmentioned : "accounts" ∈ mentionedNames "accounts.size" := by decide +kernel
  refine ⟨artifact?_budget, by decide +kernel, by decide, hmentioned, by decide, ?_⟩
  intro hscoped
  obtain ⟨hlimit, -⟩ := Scoped.cons_iff.mp
    (show Scoped budget.parameterNames [] [budget.parameters[1]] from hscoped)
  exact List.not_mem_nil (hlimit "accounts" (by decide) ⟨_, rfl, hmentioned⟩)

end Declaration

end ComponentWiring

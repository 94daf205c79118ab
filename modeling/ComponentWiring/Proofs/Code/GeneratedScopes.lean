import ComponentWiring.Proofs.Code.Planning

/-!
Names in generated code. The file of a class is read as code: a factory with fields, with a function
`create` and with the call that it returns, and a builder function with parameters and statements.
`artifact?_wellScoped` says that every generated file prints such code, and that in it every
argument of a call is bound exactly once, every call passes its arguments in the order in which the
callee takes them, and no function introduces a name twice.

Two tests of the plan carry this: the parameters of a class have a name each, and no exposed one has
a name that the builder introduces itself.
-/

namespace ComponentWiring

/-! ## Code -/

/-- A parameter or a field: its name, and what stands behind the colon. -/
structure Binder where
  name : String
  rest : String

/-- A call that passes names. -/
structure Call where
  callee : String
  arguments : List String

/-- A statement of a function. -/
inductive Statement
  /-- Introduces a name for a value. -/
  | define (name value : String)
  /-- Introduces a name for the result of a call. -/
  | defineCall (name : String) (call : Call)
  /-- Introduces nothing. -/
  | run (text : String)

/-- The code of a factory: what it is made from, what `create` takes, and what it passes to the
constructor of the class. -/
structure FactoryCode where
  name : String
  annotations : List String
  fields : List Binder
  parameters : List Binder
  arguments : List String

/-- The code of a builder function. -/
structure BuilderCode where
  name : String
  parameters : List Binder
  body : List Statement

/-- The code in the file of a class. -/
structure FileCode where
  package : String
  imports : List String
  target : String
  factory : Option FactoryCode
  builder : Option BuilderCode

/-! ## The code as text -/

def Binder.text (b : Binder) : String :=
  b.name ++ ": " ++ b.rest

def Call.text (call : Call) : String :=
  call.callee ++ "(" ++ ", ".intercalate call.arguments ++ ")"

def Statement.text : Statement → String
  | define name value => "val " ++ name ++ " = " ++ value
  | defineCall name call => "val " ++ name ++ " = " ++ call.text
  | run text => text

namespace FactoryFile

/-- The factory as it is printed. -/
def ofFactoryCode (code : FactoryCode) : FactoryPart :=
  { name := code.name
    annotations := code.annotations
    fields := withCommas (code.fields.map fun b => "private val " ++ b.text)
    createParameters := withCommas (code.parameters.map Binder.text)
    arguments := ", ".intercalate code.arguments }

/-- The builder function as it is printed. -/
def ofBuilderCode (code : BuilderCode) : BuilderPart :=
  { name := code.name
    parameters := withCommas (code.parameters.map Binder.text)
    body := code.body.map Statement.text }

/-- The file as it is printed. -/
def ofCode (code : FileCode) : FactoryFile :=
  { package := code.package
    imports := code.imports
    target := code.target
    factory := code.factory.map ofFactoryCode
    builder := code.builder.map ofBuilderCode }

end FactoryFile

/-! ## Scopes -/

/-- The names that a factory binds for the call of the constructor. -/
def FactoryCode.scope (code : FactoryCode) : List String :=
  code.fields.map (·.name) ++ code.parameters.map (·.name)

/-- The name that a statement introduces. -/
def Statement.introduced? : Statement → Option String
  | define name _ => some name
  | defineCall name _ => some name
  | run _ => none

/-- The names that a builder function introduces. -/
def BuilderCode.introduced (code : BuilderCode) : List String :=
  code.parameters.map (·.name) ++ code.body.filterMap Statement.introduced?

/-- An injected parameter as a field. -/
def Parameter.field (p : Parameter) : Binder :=
  ⟨p.name, p.type.render⟩

/-- An exposed parameter as a parameter of a function, with its default where it is known. -/
def Parameter.binder (p : Parameter) : Binder :=
  ⟨p.name, p.type.render ++
    match p.defaultExpression with
    | some expression => " = " ++ expression
    | none => ""⟩

/-- The block that configures the created component. -/
def blockBinder (target : String) : Binder :=
  ⟨"block", target ++ ".() -> Unit = \x7b\x7d"⟩

/-- The handle of a container as a parameter. -/
def ContainerParameter.binder (handle : ContainerParameter) : Binder :=
  ⟨handle.name, handle.typeName⟩

/-- What a builder function does with the created component. -/
def useOfComponent : List Statement :=
  [.run "add(component)", .run "component.block()", .run "return component"]

/-- A factory that is made from the injected parameters of a class, takes the exposed ones, and
passes all of them on in the order in which the class declares them. -/
structure FactoryCode.Constructs (code : FactoryCode) (d : Declaration) : Prop where
  fields : code.fields = d.injected.map Parameter.field
  parameters : code.parameters = d.exposed.map Parameter.binder
  arguments : code.arguments = d.parameters.map (·.name)
  bound : ∀ name ∈ code.arguments, code.scope.count name = 1

namespace BuilderCode

/-- A builder function that fetches a factory from the container of a mode and calls its `create`
with what `create` takes. -/
structure CreatesThrough (code : BuilderCode) (factory : FactoryCode) (d : Declaration)
    (mode : Mode) : Prop where
  parameters : code.parameters =
    mode.handle.binder :: d.exposed.map Parameter.binder ++ [blockBinder d.name]
  body : code.body = .define "factory" (mode.fetch d.factoryName) ::
    .defineCall "component" ⟨"factory.create", factory.parameters.map (·.name)⟩ :: useOfComponent

/-- A builder function that calls the constructor of a class itself, with the parameters of the
class, all of which it takes. -/
structure CreatesDirectly (code : BuilderCode) (d : Declaration) : Prop where
  exposed : ∀ p ∈ d.parameters, p.role = .exposed
  parameters : code.parameters = d.parameters.map Parameter.binder ++ [blockBinder d.name]
  body : code.body =
    .defineCall "component" ⟨d.name, d.parameters.map (·.name)⟩ :: useOfComponent

end BuilderCode

/-- Well-scoped code for a class: a factory where one is wanted, and a builder function for a
component, which goes through the factory if there is one and introduces no name twice. -/
structure FileCode.WellScopedFor (code : FileCode) (d : Declaration) (exportable : Bool)
    (mode : Mode) (policy : Policy) : Prop where
  target : code.target = d.name
  hasFactory : code.factory.isSome = FactoryFile.hasFactory d policy
  hasBuilder : code.builder.isSome = exportable
  factory : ∀ factory ∈ code.factory, factory.Constructs d
  distinct : ∀ builder ∈ code.builder, builder.introduced.Nodup
  builder : ∀ builder ∈ code.builder,
    match code.factory with
    | some factory => builder.CreatesThrough factory d mode
    | none => builder.CreatesDirectly d

/-! ## The code of a planned file -/

namespace FactoryFile

variable {d : Declaration} {exportable viaFactory : Bool} {mode : Mode} {policy : Policy}

theorem withCommas_concat (lines : List String) (last : String) :
    withCommas (lines ++ [last]) = lines.map (· ++ ",") ++ [last] := by
  induction lines with
  | nil => rfl
  | cons line lines ih =>
    have hne : lines ++ [last] ≠ [] := by simp
    obtain ⟨next, rest, hrest⟩ := List.exists_cons_of_ne_nil hne
    rw [List.cons_append, hrest, withCommas, ← hrest, ih]
    · rfl
    · simp

theorem binder_text (p : Parameter) : p.binder.text = p.line := by
  unfold Parameter.binder Parameter.line Binder.text Parameter.signature
  cases p.defaultExpression <;> simp [String.append_assoc]

/-- The code of the factory of a class. -/
def factoryCode (d : Declaration) (mode : Mode) : FactoryCode :=
  { name := d.factoryName
    annotations := mode.factoryAnnotations
    fields := d.injected.map Parameter.field
    parameters := d.exposed.map Parameter.binder
    arguments := d.parameters.map (·.name) }

/-- The code of the builder function of a class. -/
def builderCode (d : Declaration) (mode : Mode) (viaFactory : Bool) : BuilderCode :=
  { name := d.builderName
    parameters := (if viaFactory then [mode.handle.binder] else []) ++
      d.exposed.map Parameter.binder ++ [blockBinder d.name]
    body := (if viaFactory then
        [.define "factory" (mode.fetch d.factoryName),
          .defineCall "component" ⟨"factory.create", d.exposed.map (·.name)⟩]
      else [.defineCall "component" ⟨d.name, d.parameters.map (·.name)⟩]) ++ useOfComponent }

/-- The code of the file of a class. -/
def plannedCode (d : Declaration) (exportable : Bool) (mode : Mode) (policy : Policy) : FileCode :=
  let viaFactory := hasFactory d policy
  { package := d.package
    imports := ImportBlock.lines (importNames d exportable viaFactory mode) d.package
    target := d.name
    factory := if viaFactory then some (factoryCode d mode) else none
    builder := if exportable then some (builderCode d mode viaFactory) else none }

theorem ofFactoryCode_factoryCode (d : Declaration) (mode : Mode) :
    ofFactoryCode (factoryCode d mode) = factoryPart d mode := by
  have hfield (p : Parameter) : p.field.text = p.signature := rfl
  simp [ofFactoryCode, factoryCode, factoryPart, argumentText, Function.comp_def, binder_text,
    hfield]

theorem ofBuilderCode_builderCode (d : Declaration) (mode : Mode) (viaFactory : Bool) :
    ofBuilderCode (builderCode d mode viaFactory) = builderPart d mode viaFactory := by
  have hblock : (blockBinder d.name).text = "block: " ++ d.name ++ ".() -> Unit = \x7b\x7d" := by
    simp [blockBinder, Binder.text, String.append_assoc]
  have hhandle : mode.handle.binder.text = mode.handle.declaration := rfl
  have hcall (arguments : String) : "val component = " ++ ("factory.create(" ++ arguments) =
      "val component = factory.create(" ++ arguments := by
    rw [← String.append_assoc]
    rfl
  unfold ofBuilderCode builderCode builderPart creation argumentText
  congr 1
  · rw [List.map_append, List.map_singleton, withCommas_concat, hblock]
    cases viaFactory <;> simp [hhandle, binder_text]
  · cases viaFactory <;>
      simp [useOfComponent, Statement.text, Call.text, String.append_assoc, hcall]

theorem ofCode_plannedCode (d : Declaration) (exportable : Bool) (mode : Mode) (policy : Policy) :
    ofCode (plannedCode d exportable mode policy) = planned d exportable mode policy := by
  unfold ofCode plannedCode planned
  cases exportable <;> cases hasFactory d policy <;>
    simp [ofFactoryCode_factoryCode, ofBuilderCode_builderCode]

/-! ## Scopes of the planned code -/

/-- Every parameter of a class is injected or exposed. -/
theorem injected_append_exposed_perm (d : Declaration) :
    (d.injected ++ d.exposed).Perm d.parameters := by
  have hroles : (fun p : Parameter => p.role == .exposed) = fun p => !(p.role == .injected) := by
    funext p
    cases p.role <;> rfl
  unfold Declaration.injected Declaration.exposed
  rw [hroles]
  exact List.filter_append_perm _ d.parameters

theorem scope_factoryCode_perm (d : Declaration) (mode : Mode) :
    (factoryCode d mode).scope.Perm (d.parameters.map (·.name)) := by
  have hscope : (factoryCode d mode).scope = (d.injected ++ d.exposed).map (·.name) := by
    simp [FactoryCode.scope, factoryCode, Function.comp_def, Parameter.field, Parameter.binder]
  rw [hscope]
  exact (injected_append_exposed_perm d).map _

theorem constructs_factoryCode (h : WellNamed d) (mode : Mode) :
    (factoryCode d mode).Constructs d where
  fields := rfl
  parameters := rfl
  arguments := rfl
  bound := fun name hname => by
    rw [(scope_factoryCode_perm d mode).count_eq]
    exact List.count_eq_one_of_mem h.distinct hname

/-- A builder function introduces the exposed parameters and the reserved names. -/
theorem introduced_builderCode_perm (d : Declaration) (mode : Mode) (viaFactory : Bool) :
    (builderCode d mode viaFactory).introduced.Perm
      (d.exposed.map (·.name) ++ reservedNames mode viaFactory) := by
  have hbody : (builderCode d mode viaFactory).body.filterMap Statement.introduced? =
      (if viaFactory then ["factory"] else []) ++ ["component"] := by
    cases viaFactory <;> rfl
  have hparameters : (builderCode d mode viaFactory).parameters.map (·.name) =
      (if viaFactory then [mode.handle.name] else []) ++ (d.exposed.map (·.name) ++ ["block"]) := by
    cases viaFactory <;>
      simp [builderCode, Function.comp_def, Parameter.binder, blockBinder,
        ContainerParameter.binder]
  rw [BuilderCode.introduced, hbody, hparameters]
  cases viaFactory with
  | false => simp [reservedNames]
  | true =>
    -- The handle is the first parameter and the last of the reserved names.
    have hlast : (["block", "factory", "component"] ++ [mode.handle.name]).Perm
        (reservedNames mode true) := (List.Perm.swap ..).cons _
    simp only [if_true, List.append_assoc, List.cons_append, List.nil_append]
    refine (List.perm_append_singleton _ _).symm.trans ?_
    rw [List.append_assoc]
    exact hlast.append_left _

theorem nodup_introduced_builderCode (h : WellNamed d)
    (hfree : FreeOfReserved d mode viaFactory) :
    (builderCode d mode viaFactory).introduced.Nodup := by
  have hexposed : (d.exposed.map (·.name)).Nodup :=
    h.distinct.sublist (List.filter_sublist.map _)
  have hreserved : (reservedNames mode viaFactory).Nodup := by
    cases mode <;> cases viaFactory <;> decide
  have hapart : (d.exposed.map (·.name)).Disjoint (reservedNames mode viaFactory) := by
    intro name hname
    obtain ⟨p, hp, rfl⟩ := List.mem_map.mp hname
    exact hfree p hp
  exact (introduced_builderCode_perm d mode viaFactory).nodup_iff.mpr
    (hexposed.append hreserved hapart)

theorem createsThrough_builderCode (d : Declaration) (mode : Mode) :
    (builderCode d mode true).CreatesThrough (factoryCode d mode) d mode where
  parameters := by simp [builderCode]
  body := by simp [builderCode, factoryCode, Function.comp_def, Parameter.binder]

/-- A class without a factory has exposed parameters only. -/
theorem exposed_of_hasFactory_eq_false (h : hasFactory d policy = false) :
    ∀ p ∈ d.parameters, p.role = .exposed := by
  intro p hp
  have hrole := List.filter_eq_nil_iff.mp (hasFactory_eq_false_iff.mp h).1 p hp
  cases hp : p.role with
  | injected => simp [hp] at hrole
  | exposed => rfl

theorem createsDirectly_builderCode (h : hasFactory d policy = false) (mode : Mode) :
    (builderCode d mode false).CreatesDirectly d where
  exposed := exposed_of_hasFactory_eq_false h
  parameters := by
    have hall : d.exposed = d.parameters := by
      refine List.filter_eq_self.mpr fun p hp => ?_
      rw [exposed_of_hasFactory_eq_false h p hp]
      rfl
    simp [builderCode, hall]
  body := rfl

/-- The planned code of a class that passes all tests on names is well scoped. -/
theorem wellScopedFor_plannedCode (h : Valid d exportable mode policy) :
    (plannedCode d exportable mode policy).WellScopedFor d exportable mode policy where
  target := rfl
  hasFactory := by
    unfold plannedCode
    cases hasFactory d policy <;> rfl
  hasBuilder := by cases exportable <;> rfl
  factory := by
    intro factory hfactory
    obtain ⟨-, ⟨⟩⟩ := Option.ite_none_right_eq_some.mp hfactory
    exact constructs_factoryCode h.names mode
  distinct := by
    intro builder hbuilder
    obtain ⟨hexportable, ⟨⟩⟩ := Option.ite_none_right_eq_some.mp hbuilder
    exact nodup_introduced_builderCode h.names (h.free hexportable)
  builder := by
    intro builder hbuilder
    obtain ⟨-, ⟨⟩⟩ := Option.ite_none_right_eq_some.mp hbuilder
    unfold plannedCode
    cases hfactory : hasFactory d policy with
    | false => exact createsDirectly_builderCode hfactory mode
    | true => exact createsThrough_builderCode d mode

end FactoryFile

/-! ## Every generated file -/

namespace Declaration

open FactoryFile

variable {d : Declaration} {exportable : Bool} {mode : Mode} {policy : Policy}

/-- Every generated file prints the planned code. -/
theorem eq_plannedCode_of_artifact? {a : Artifact}
    (h : d.artifact? exportable mode policy = .ok (some a)) :
    a = (ofCode (plannedCode d exportable mode policy)).laidOut := by
  rw [ofCode_plannedCode]
  exact (valid_of_artifact? h).2.symm

/-- A class for which a file is planned gets one. -/
theorem artifact?_of_plan
    (h : (plan d exportable mode policy).toOption.any Option.isSome = true) :
    d.artifact? exportable mode policy =
      .ok (some (ofCode (plannedCode d exportable mode policy)).laidOut) := by
  rw [ofCode_plannedCode]
  rcases plan_cases d exportable mode policy with
    ⟨refusal, -, hplan⟩ | ⟨-, -, -, hplan⟩ | ⟨-, -, refusal, -, hplan⟩ | ⟨-, -, -, hplan⟩
  · simp [hplan, Except.toOption] at h
  · simp [hplan, Except.toOption] at h
  · simp [hplan, Except.toOption] at h
  · exact artifact?_eq_ok_some_iff.mpr ⟨_, hplan, rfl⟩

/-- Every generated file prints the planned code, and this is well scoped: the fields of the factory
are the injected parameters and the parameters of `create` the exposed ones; every argument of the
constructor call is bound once, and the arguments are all parameters in the order of the class; the
builder calls `create` with the parameters of `create`, or the constructor with all parameters,
which are then exposed; and it introduces no name twice. -/
theorem artifact?_wellScoped {a : Artifact}
    (h : d.artifact? exportable mode policy = .ok (some a)) :
    let code := plannedCode d exportable mode policy
    a = (ofCode code).laidOut ∧ code.WellScopedFor d exportable mode policy := by
  intro code
  obtain ⟨hvalid, -⟩ := valid_of_artifact? h
  exact ⟨eq_plannedCode_of_artifact? h, wellScopedFor_plannedCode hvalid⟩

/-- A class with an injected parameter between two exposed ones. -/
def interleaved : Declaration :=
  { name := "Reminder"
    package := "app"
    parameters := [
      { name := "title", type := { name := "kotlin.String" }, role := .exposed },
      { name := "clock", type := { name := "java.time.Clock" }, role := .injected },
      { name := "note", type := { name := "kotlin.String" }, role := .exposed, hasDefault := true,
        defaultExpression := some "title" }] }

theorem artifact?_wellScoped_interleaved :
    let code := plannedCode interleaved true .spring .directConstruction
    interleaved.artifact? true .spring .directConstruction = .ok (some (ofCode code).laidOut) ∧
      code.WellScopedFor interleaved true .spring .directConstruction := by
  intro code
  have hwell : WellNamed interleaved := ⟨by decide, by decide, by decide⟩
  have hfree : FreeOfReserved interleaved .spring true := by
    unfold FreeOfReserved
    decide
  have hplan : plan interleaved true .spring .directConstruction = .ok (some (planned ..)) :=
    plan_eq_ok_some_iff.mpr ⟨hwell, .inr rfl, fun _ => hfree, rfl⟩
  have hgenerated := artifact?_of_plan (by rw [hplan]; rfl)
  exact ⟨hgenerated, (artifact?_wellScoped hgenerated).2⟩

end Declaration

end ComponentWiring

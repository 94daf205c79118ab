import Mathlib.Data.List.Basic
import ComponentWiring.Proofs.Code.LaidOut

/-!
When a class gets a file, and what the file holds. A class is refused for its names, or because an
exposed parameter has a name that the builder function uses itself; it gets no file where neither
factory nor builder is wanted; and in every other case it gets `FactoryFile.planned`.
`exists_plan_eq_error_iff`, `plan_eq_ok_none_iff` and `plan_eq_ok_some_iff` say so,
`refused_of_plan_eq_error` says what a class is refused for, and everything that is proved about the
files of classes goes through them.
-/

namespace ComponentWiring

open Text

namespace FactoryFile

variable {d : Declaration} {exportable viaFactory : Bool} {mode : Mode} {policy : Policy}

/-! ## Names -/

theorem mem_of_isIdentifier {name : String} (h : isIdentifier name = true) {c : Char}
    (hc : c ∈ name.toList) : isAlphanumeric c = true ∨ c = '_' := by
  unfold isIdentifier at h
  split at h
  · cases h
  · next first rest heq =>
    simp only [Bool.and_eq_true, Bool.or_eq_true, beq_iff_eq, List.all_eq_true] at h
    rw [heq, List.mem_cons] at hc
    rcases hc with rfl | hc
    · exact h.1.imp (fun hfirst => by simp [isAlphanumeric, hfirst]) id
    · exact h.2 c hc

theorem not_mem_of_isIdentifier {name : String} (h : isIdentifier name = true) {c : Char}
    (halphanumeric : isAlphanumeric c = false) (hscore : c ≠ '_') : c ∉ name.toList := by
  intro hc
  rcases mem_of_isIdentifier h hc with hc | hc
  · exact Bool.false_ne_true (halphanumeric.symm.trans hc)
  · exact hscore hc

/-- A declaration whose names can stand in code and whose parameters have a name each. -/
structure WellNamed (d : Declaration) : Prop where
  name : isIdentifier d.name = true
  parameters : ∀ p ∈ d.parameters, isIdentifier p.name = true
  distinct : (d.parameters.map (·.name)).Nodup

theorem parameterRefusal?_eq_none_iff {seen : List String} {parameters : List Parameter} :
    parameterRefusal? seen parameters = none ↔
      (∀ p ∈ parameters, isIdentifier p.name = true) ∧ (parameters.map (·.name)).Nodup ∧
        ∀ p ∈ parameters, p.name ∉ seen := by
  induction parameters generalizing seen with
  | nil => simp [parameterRefusal?]
  | cons p rest ih =>
    rw [parameterRefusal?]
    cases hname : isIdentifier p.name with
    | false => simp [hname]
    | true =>
      by_cases hseen : p.name ∈ seen
      · simp [hseen]
      · have hlater : (∀ q ∈ rest, q.name ∉ p.name :: seen) ↔
            p.name ∉ rest.map (·.name) ∧ ∀ q ∈ rest, q.name ∉ seen := by
          simp only [List.mem_cons, not_or, List.mem_map, not_exists, not_and]
          exact ⟨fun h => ⟨fun q hq => (h q hq).1, fun q hq => (h q hq).2⟩,
            fun h q hq => ⟨h.1 q hq, h.2 q hq⟩⟩
        simp only [hseen, List.contains_eq_mem, decide_false, Bool.not_true, Bool.false_eq_true,
          if_false, ih, hlater, List.map_cons, List.nodup_cons, List.forall_mem_cons, hname,
          true_and, not_false_eq_true]
        tauto

/-- What is wrong with the names of a declaration. -/
def nameRefusal? (d : Declaration) : Option Refusal :=
  if isIdentifier d.name then parameterRefusal? [] d.parameters else some (.invalidName d.name)

theorem nameRefusal?_eq_none_iff : nameRefusal? d = none ↔ WellNamed d := by
  unfold nameRefusal?
  cases hname : isIdentifier d.name with
  | false =>
    simp only [Bool.false_eq_true, if_false, reduceCtorEq, false_iff]
    exact fun h => Bool.false_ne_true (hname.symm.trans h.name)
  | true =>
    rw [if_pos rfl, parameterRefusal?_eq_none_iff]
    exact ⟨fun h => ⟨hname, h.1, h.2.1⟩, fun h => ⟨h.parameters, h.distinct, by simp⟩⟩

/-- No exposed parameter has a name that the builder function uses itself. -/
def FreeOfReserved (d : Declaration) (mode : Mode) (viaFactory : Bool) : Prop :=
  ∀ p ∈ d.exposed, p.name ∉ reservedNames mode viaFactory

theorem builderRefusal?_eq_none_iff :
    builderRefusal? d mode viaFactory = none ↔ FreeOfReserved d mode viaFactory := by
  simp [builderRefusal?, FreeOfReserved]

theorem exists_of_builderRefusal? {refusal : Refusal}
    (h : builderRefusal? d mode viaFactory = some refusal) :
    ∃ p ∈ d.exposed, p.name ∈ reservedNames mode viaFactory := by
  obtain ⟨p, hfind, -⟩ := Option.map_eq_some_iff.mp h
  exact ⟨p, List.mem_of_find?_eq_some hfind, by simpa using List.find?_some hfind⟩

/-- A declaration that passes all tests on names. -/
structure Valid (d : Declaration) (exportable : Bool) (mode : Mode) (policy : Policy) : Prop where
  names : WellNamed d
  free : exportable = true → FreeOfReserved d mode (hasFactory d policy)

/-! ## The plan -/

/-- What the file of a class holds, where it has one. -/
def planned (d : Declaration) (exportable : Bool) (mode : Mode) (policy : Policy) : FactoryFile :=
  let viaFactory := hasFactory d policy
  { package := d.package
    imports := ImportBlock.lines (importNames d exportable viaFactory mode) d.package
    target := d.name
    factory := if viaFactory then some (factoryPart d mode) else none
    builder := if exportable then some (builderPart d mode viaFactory) else none }

theorem hasFactory_eq_false_iff :
    hasFactory d policy = false ↔ d.injected = [] ∧ policy = .directConstruction := by
  unfold hasFactory
  cases policy <;> simp

/-- The file is named after the factory, or after the class where there is none. -/
theorem fileName_planned (d : Declaration) (exportable : Bool) (mode : Mode) (policy : Policy) :
    (planned d exportable mode policy).fileName =
      if hasFactory d policy then d.factoryName ++ ".kt" else d.name ++ "Dsl.kt" := by
  cases hfactory : hasFactory d policy <;> simp [planned, fileName, hfactory, factoryPart]

/-- The four ways in which a plan can end. -/
theorem plan_cases (d : Declaration) (exportable : Bool) (mode : Mode) (policy : Policy) :
    (∃ refusal, nameRefusal? d = some refusal ∧
      plan d exportable mode policy = .error refusal) ∨
    (WellNamed d ∧ hasFactory d policy = false ∧ exportable = false ∧
      plan d exportable mode policy = .ok none) ∨
    (WellNamed d ∧ exportable = true ∧ (∃ refusal,
      builderRefusal? d mode (hasFactory d policy) = some refusal ∧
      plan d exportable mode policy = .error refusal)) ∨
    (WellNamed d ∧ (hasFactory d policy = true ∨ exportable = true) ∧
      (exportable = true → FreeOfReserved d mode (hasFactory d policy)) ∧
      plan d exportable mode policy = .ok (some (planned d exportable mode policy))) := by
  cases hnames : nameRefusal? d with
  | some refusal =>
    refine .inl ⟨refusal, rfl, ?_⟩
    unfold nameRefusal? at hnames
    unfold plan
    cases hname : isIdentifier d.name with
    | false => simp_all
    | true => simp_all
  | none =>
    have hwell := nameRefusal?_eq_none_iff.mp hnames
    have hparameters : parameterRefusal? [] d.parameters = none :=
      parameterRefusal?_eq_none_iff.mpr ⟨hwell.parameters, hwell.distinct, by simp⟩
    unfold plan
    simp only [hwell.name, hparameters, Bool.not_true, Bool.false_eq_true, if_false, reduceCtorEq,
      false_and, exists_false, false_or]
    cases exportable with
    | false =>
      cases hfactory : hasFactory d policy with
      | false => simp [hwell]
      | true => simp [hwell, planned, hfactory]
    | true =>
      cases hbuilder : builderRefusal? d mode (hasFactory d policy) with
      | some refusal => simp [hwell]
      | none =>
        have hfree := builderRefusal?_eq_none_iff.mp hbuilder
        simp [hwell, hfree, planned]

/-- A class gets no file just where its names are good and neither factory nor builder is wanted. -/
theorem plan_eq_ok_none_iff :
    plan d exportable mode policy = .ok none ↔
      WellNamed d ∧ hasFactory d policy = false ∧ exportable = false := by
  rcases plan_cases d exportable mode policy with
    ⟨refusal, hrefused, hplan⟩ | ⟨hwell, hfactory, hexportable, hplan⟩ |
    ⟨hwell, hexportable, refusal, -, hplan⟩ | ⟨hwell, hwanted, -, hplan⟩
  · have hnot : ¬WellNamed d := fun h => by simp [nameRefusal?_eq_none_iff.mpr h] at hrefused
    simp [hplan, hnot]
  · rw [hplan]
    simp [hwell, hfactory, hexportable]
  · rw [hplan]
    simp [hexportable]
  · rw [hplan]
    rcases hwanted with h | h <;> simp [h]

/-- A class gets a file just where its names are good, factory or builder is wanted, and no exposed
parameter has a name that the builder uses itself; and then it is the planned file. -/
theorem plan_eq_ok_some_iff {file : FactoryFile} :
    plan d exportable mode policy = .ok (some file) ↔
      WellNamed d ∧ (hasFactory d policy = true ∨ exportable = true) ∧
        (exportable = true → FreeOfReserved d mode (hasFactory d policy)) ∧
        planned d exportable mode policy = file := by
  rcases plan_cases d exportable mode policy with
    ⟨refusal, hrefused, hplan⟩ | ⟨hwell, hfactory, hexportable, hplan⟩ |
    ⟨hwell, hexportable, refusal, hrefused, hplan⟩ | ⟨hwell, hwanted, hfree, hplan⟩
  · have hnot : ¬WellNamed d := fun h => by simp [nameRefusal?_eq_none_iff.mpr h] at hrefused
    simp [hplan, hnot]
  · rw [hplan]
    simp [hfactory, hexportable]
  · have hnot : ¬FreeOfReserved d mode (hasFactory d policy) := fun h => by
      simp [builderRefusal?_eq_none_iff.mpr h] at hrefused
    rw [hplan]
    simp [hexportable, hnot]
  · rw [hplan, Except.ok.injEq, Option.some.injEq]
    exact ⟨fun h => ⟨hwell, hwanted, hfree, h⟩, fun h => h.2.2.2⟩

/-- A class is refused for its names, or for an exposed parameter with a name that the builder uses
itself. -/
theorem refused_of_plan_eq_error {refusal : Refusal}
    (h : plan d exportable mode policy = .error refusal) :
    nameRefusal? d = some refusal ∨ WellNamed d ∧ exportable = true ∧
      builderRefusal? d mode (hasFactory d policy) = some refusal := by
  rcases plan_cases d exportable mode policy with
    ⟨refusal', hrefused, hplan⟩ | ⟨-, -, -, hplan⟩ |
    ⟨hwell, hexportable, refusal', hrefused, hplan⟩ | ⟨-, -, -, hplan⟩
  · cases hplan.symm.trans h
    exact .inl hrefused
  · cases hplan.symm.trans h
  · cases hplan.symm.trans h
    exact .inr ⟨hwell, hexportable, hrefused⟩
  · cases hplan.symm.trans h

theorem exists_plan_eq_error_iff :
    (∃ refusal, plan d exportable mode policy = .error refusal) ↔
      ¬Valid d exportable mode policy := by
  rcases plan_cases d exportable mode policy with
    ⟨refusal, hrefused, hplan⟩ | ⟨hwell, -, hexportable, hplan⟩ |
    ⟨-, hexportable, refusal, hrefused, hplan⟩ | ⟨hwell, -, hfree, hplan⟩
  · have hnot : ¬Valid d exportable mode policy := fun h => by
      simp [nameRefusal?_eq_none_iff.mpr h.names] at hrefused
    simp [hplan, hnot]
  · have hvalid : Valid d exportable mode policy := ⟨hwell, by simp [hexportable]⟩
    simp [hplan, hvalid]
  · have hnot : ¬Valid d exportable mode policy := fun h => by
      simp [builderRefusal?_eq_none_iff.mpr (h.free hexportable)] at hrefused
    simp [hplan, hnot]
  · have hvalid : Valid d exportable mode policy := ⟨hwell, hfree⟩
    simp [hplan, hvalid]

end FactoryFile

/-! ## The file laid out -/

namespace Declaration

open FactoryFile

variable {d : Declaration} {exportable : Bool} {mode : Mode} {policy : Policy}

/-- A class has the file that is planned for it, laid out. -/
theorem artifact?_eq (d : Declaration) (exportable : Bool) (mode : Mode) (policy : Policy) :
    d.artifact? exportable mode policy =
      match plan d exportable mode policy with
      | .error refusal => .error (.refused d.qualifiedName refusal)
      | .ok file? => .ok (file?.map laidOut) := by
  unfold artifact?
  cases plan d exportable mode policy with
  | error refusal => rfl
  | ok file? =>
    cases file? with
    | none => rfl
    | some file => simp only [artifact_eq_ok]; rfl

theorem exists_of_artifact?_eq_error {failure : Failure}
    (h : d.artifact? exportable mode policy = .error failure) :
    ∃ refusal, plan d exportable mode policy = .error refusal ∧
      failure = .refused d.qualifiedName refusal := by
  rw [artifact?_eq] at h
  rcases hplan : plan d exportable mode policy with refusal | file? <;> rw [hplan] at h
  · exact ⟨refusal, rfl, (Except.error.inj h).symm⟩
  · cases h

theorem artifact?_eq_ok_none_iff :
    d.artifact? exportable mode policy = .ok none ↔ plan d exportable mode policy = .ok none := by
  rw [artifact?_eq]
  rcases plan d exportable mode policy with refusal | (_ | file) <;> simp

theorem artifact?_eq_ok_some_iff {a : Artifact} :
    d.artifact? exportable mode policy = .ok (some a) ↔
      ∃ file, plan d exportable mode policy = .ok (some file) ∧ file.laidOut = a := by
  rw [artifact?_eq]
  rcases plan d exportable mode policy with refusal | (_ | file) <;> simp

/-- A class that gets a file passes all tests on names, and its file is the planned one. -/
theorem valid_of_artifact? {a : Artifact} (h : d.artifact? exportable mode policy = .ok (some a)) :
    Valid d exportable mode policy ∧ (planned d exportable mode policy).laidOut = a := by
  obtain ⟨file, hplan, rfl⟩ := artifact?_eq_ok_some_iff.mp h
  obtain ⟨hwell, -, hfree, rfl⟩ := plan_eq_ok_some_iff.mp hplan
  exact ⟨⟨hwell, hfree⟩, rfl⟩

end Declaration

end ComponentWiring

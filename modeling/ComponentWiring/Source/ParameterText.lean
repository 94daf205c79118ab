import ComponentWiring.Model.Declaration
import ComponentWiring.Source.Expression
import ComponentWiring.Source.Header
import ComponentWiring.Source.TypeText

/-!
Constructor parameters as they are written, and what is read from them: the parameters of a
declaration with their roles, and the default expressions. The two are read separately. Reading
parameters only notes that a default is there; `defaultExpressions` finds the constructor in the
source text once more and takes the expressions from it.
-/

namespace ComponentWiring.Source

open Text

/-- A constructor parameter as it is written. -/
structure ParameterText where
  annotations : List (List Char)
  modifiers : List String
  /-- Whether `val` or `var` makes it a property. -/
  isProperty : Bool
  name : String
  /-- The text behind the colon: the type, and the default if there is one. -/
  rest : List Char
  deriving Repr, Inhabited

/-- A name, a colon and something behind it. -/
def typedName? (cs : List Char) : Option (List Char × List Char) :=
  match nameAndColon? cs with
  | none => none
  | some (name, rest) => if (trimStart rest).isEmpty then none else some (name, trimStart rest)

/-- Reads one part of a parameter list. -/
def parameterText? (fragment : List Char) : Option ParameterText := do
  let (annotations, rest) := annotations fragment
  let (modifiers, isProperty, name, rest) ←
    modifiersThen parameterModifiers (optionalPropertyWord typedName?) rest
  return ⟨annotations, modifiers, isProperty, String.ofList name, rest⟩

namespace ParameterText

/-- The written type. -/
def typeText (p : ParameterText) : List Char :=
  beforeFirst '=' p.rest

/-- Whether a default is written. -/
def hasDefault (p : ParameterText) : Bool :=
  match splitFirst '=' p.rest with
  | some (_, default) => !isAllBlank default
  | none => false

end ParameterText

/-! ## Parameters of a declaration -/

/-- The marker of an injected parameter. -/
def injectMarker : String := "GenDslInject"

/-- The marker of an exposed parameter. -/
def exposeMarker : String := "GenDslParam"

/-- Why a parameter list cannot be used. -/
inductive ParameterFault
  /-- A part of the list is no parameter. -/
  | unreadable (text : String)
  /-- A parameter takes any number of arguments. -/
  | variadic (name : String)
  deriving DecidableEq, Repr, Inhabited

/-- The markers on a parameter. -/
def ParameterText.markers (p : ParameterText) : Markers :=
  { inject := carriesMarker p.annotations injectMarker
    expose := carriesMarker p.annotations exposeMarker }

/-- Reads one part of a parameter list and refuses parameters that cannot be passed on. -/
def usableParameter (fragment : List Char) : Except ParameterFault ParameterText :=
  match parameterText? fragment with
  | none => .error (.unreadable (String.ofList (trim fragment)))
  | some p => if p.modifiers.contains "vararg" then .error (.variadic p.name) else .ok p

/-- The parameters of a list, in order, with the roles that their markers and the convention give
them. The first part that cannot be used decides the fault. -/
def readParameters (list : List Char) (imports : Imports) (fallback : Convention) :
    Except ParameterFault (List Parameter) := do
  let texts ← (parameterParts list).mapM usableParameter
  let convention := Convention.infer (texts.map ParameterText.markers) fallback
  return texts.map fun p =>
    { name := p.name
      type := readType imports [] p.typeText
      role := Role.classify p.markers convention
      hasDefault := p.hasDefault }

/-! ## Where the parts stand -/

/-- The parts of a list, each with the byte offset at which it stands. `offset` is where the text
that is searched starts. -/
def locateParts : (offset : Nat) → (cs : List Char) → List (List Char) → List (List Char × Nat)
  | _, _, [] => []
  | offset, cs, part :: parts =>
    match splitAtText part cs with
    | some (before, after) =>
      let start := offset + byteLength before
      (part, start) :: locateParts (start + byteLength part) after parts
    | none => (part, offset) :: locateParts offset cs parts

/-- The parts of a parameter list, each with the byte offset at which it starts. -/
def parametersWithOffsets (list : List Char) : List (List Char × Nat) :=
  locateParts 0 list (parameterParts list)

/-! ## Default expressions -/

/-- The words that can stand before a parameter with a default. -/
def defaultModifiers : List String :=
  ["private", "protected", "public", "internal", "val", "var", "override", "open", "final"]

/-- A name, a colon, a type and, behind an equals sign, an expression. The type takes at least one
character, which may be a blank. -/
def namedDefault? (cs : List Char) : Option (List Char × List Char) := do
  let (name, rest) ← nameAndColon? cs
  let (type, expression) ← splitFirst '=' rest
  if type.isEmpty ∨ isAllBlank expression then none
  else return (name, trimStart expression)

/-- The name and the default expression of one part of a parameter list. -/
def defaultText? (fragment : List Char) : Option (List Char × List Char) :=
  let rest := (readAll (annotationWith? afterArguments) fragment).2
  (modifiersThen defaultModifiers namedDefault? rest).map (·.2)

/-- The default expressions of a parameter list by parameter name; of two for one name the later
one counts. -/
def defaultsOf (list : List Char) : Keyed String :=
  (parameterParts list).foldl (fun defaults fragment =>
    match defaultText? fragment with
    | none => defaults
    | some (name, expression) =>
      let cleaned := bareExpression expression
      if cleaned.isEmpty then defaults
      else defaults.insert (String.ofList name) (String.ofList cleaned)) Keyed.empty

/-- The default expressions of the primary constructor of a class, read from its source text. -/
def defaultExpressions (className : String) (source : List Char) : Keyed String :=
  match constructorStretch? (blankComments source) className with
  | some inside => defaultsOf inside.text
  | none => Keyed.empty

end ComponentWiring.Source

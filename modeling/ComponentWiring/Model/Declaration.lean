import ComponentWiring.Model.Component
import ComponentWiring.Model.Role
import ComponentWiring.Text.Lowercase

/-!
What a source file declares: marked classes with their constructor parameters, and marked
properties. Both are found by reading source text or given by a manifest, and everything that is
generated is generated from them.
-/

namespace ComponentWiring

open Text

/-- A place in a source file; line zero is an unknown line. -/
structure Location where
  file : String := ""
  line : Nat := 0
  deriving DecidableEq, Repr, Inhabited

/-- A location as it is reported. -/
def Location.render (location : Location) : String :=
  location.file ++ ":" ++ toString location.line

/-- Who may use a member. -/
inductive Visibility
  | everywhere
  | inModule
  | inSubclasses
  | inClass
  deriving DecidableEq, Repr

namespace Visibility

instance : Inhabited Visibility := ⟨everywhere⟩

/-- The keyword of a visibility. -/
def keyword : Visibility → String
  | everywhere => "public"
  | inModule => "internal"
  | inSubclasses => "protected"
  | inClass => "private"

/-- The visibility of a keyword. -/
def ofKeyword? : String → Option Visibility
  | "public" => some everywhere
  | "internal" => some inModule
  | "protected" => some inSubclasses
  | "private" => some inClass
  | _ => none

/-- The visibility that a list of modifiers gives: that of the first visibility keyword, and public
without one. -/
def ofModifiers (modifiers : List String) : Visibility :=
  (modifiers.findSome? ofKeyword?).getD everywhere

end Visibility

/-- A constructor parameter of a marked class. -/
structure Parameter where
  name : String
  type : TypeExpr
  role : Role
  /-- Whether the class gives the parameter a default. -/
  hasDefault : Bool := false
  /-- The text of the default, where it is known. -/
  defaultExpression : Option String := none
  deriving Repr, Inhabited, BEq

namespace Parameter

/-- The parameter with its type, the way generated code and reports spell it. -/
def signature (p : Parameter) : String :=
  p.name ++ ": " ++ p.type.render

/-- The parameter with its type and, where it is known, its default. -/
def line (p : Parameter) : String :=
  match p.defaultExpression with
  | some expression => p.signature ++ " = " ++ expression
  | none => p.signature

end Parameter

/-- `name` in `package`; a member of the default package has its plain name. -/
def qualify (package name : String) : String :=
  if package.isEmpty then name else package ++ "." ++ name

/-- A marked class. -/
structure Declaration where
  name : String
  package : String := ""
  parameters : List Parameter := []
  supertypes : List TypeExpr := []
  starImports : List String := []
  location : Location := {}
  deriving Repr, Inhabited, BEq

namespace Declaration

/-- The qualified name of the class. -/
def qualifiedName (d : Declaration) : String :=
  qualify d.package d.name

/-- The name of the factory that is generated for the class. -/
def factoryName (d : Declaration) : String :=
  d.name ++ "Factory"

/-- The name of the builder function: that of the class with its first letter in lower case. -/
def builderName (d : Declaration) : String :=
  match d.name.toList with
  | [] => ""
  | first :: rest => String.ofList (lowerChar first ++ rest)

/-- The parameters that the container supplies, in order. -/
def injected (d : Declaration) : List Parameter :=
  d.parameters.filter fun p => p.role == .injected

/-- The parameters that the caller supplies, in order. -/
def exposed (d : Declaration) : List Parameter :=
  d.parameters.filter fun p => p.role == .exposed

/-- The class with the default expressions that were recovered from its source text, and with no
others. A recovered expression also marks its parameter as having a default. -/
def withDefaults (d : Declaration) (recovered : Keyed String) : Declaration :=
  { d with
    parameters := d.parameters.map fun p =>
      let expression := recovered.get? p.name
      { p with defaultExpression := expression, hasDefault := p.hasDefault || expression.isSome } }

end Declaration

/-- A marked property. -/
structure Property where
  owner : String
  package : String := ""
  name : String
  type : TypeExpr
  visibility : Visibility := .everywhere
  starImports : List String := []
  location : Location := {}
  deriving Repr, Inhabited, BEq

namespace Property

/-- The property with its class, the way reports name it. -/
def subject (p : Property) : String :=
  p.owner ++ "." ++ p.name

/-- The kind of wrapper that the property has. -/
def signalKind? (p : Property) : Option SignalKind :=
  SignalKind.of? p.type

/-- The one type argument of the property's type. -/
def elementType? (p : Property) : Option TypeExpr :=
  match p.type.arguments with
  | [element] => some element
  | _ => none

end Property

end ComponentWiring

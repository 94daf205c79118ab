import ComponentWiring.Keyed
import ComponentWiring.Text.Segments

/-!
References to types. A reference carries the qualified name as far as it is known, its type
arguments and whether it is nullable. Function types and whatever else lies outside
`Name<Arguments>?` are kept verbatim as *opaque* references; their arguments are then the types
they mention, which serve only to collect imports.

`render` prints a reference with simple names, the way generated code spells it.
-/

namespace ComponentWiring

open Text

/-- A reference to a type. -/
structure TypeExpr where
  name : String
  arguments : List TypeExpr := []
  nullable : Bool := false
  isOpaque : Bool := false
  deriving Repr, Inhabited, BEq

namespace TypeExpr

/-- The part of a dotted name behind its last dot. -/
def lastPart (name : String) : String :=
  String.ofList (afterLast '.' name.toList)

/-- The part of a dotted name before its last dot. -/
def packagePart? (name : String) : Option String :=
  (splitLast '.' name.toList).map fun (package, _) => String.ofList package

/-- The simple name, or the whole text of an opaque reference. -/
def simpleName (type : TypeExpr) : String :=
  if type.isOpaque then type.name else lastPart type.name

/-- The package of a qualified name. -/
def package? (type : TypeExpr) : Option String :=
  if type.isOpaque then none else packagePart? type.name

/-- Whether the language makes a name known everywhere. -/
def isBuiltinName (name : String) : Bool :=
  name.startsWith "kotlin." || name.startsWith "java.lang."

/-- Whether the language makes the type known everywhere. -/
def isBuiltin (type : TypeExpr) : Bool :=
  isBuiltinName type.name

/-- Type arguments in angle brackets; nothing without any. -/
def inBrackets (arguments : List String) : String :=
  if arguments.isEmpty then "" else "<" ++ ", ".intercalate arguments ++ ">"

mutual

/-- The type with simple names, as it is written in generated code. -/
def render : TypeExpr → String
  | ⟨name, arguments, nullable, isOpaque⟩ =>
    if isOpaque then name
    else lastPart name ++ inBrackets (renderAll arguments) ++ (if nullable then "?" else "")

/-- The types of a list, each as it is written. -/
def renderAll : List TypeExpr → List String
  | [] => []
  | type :: rest => render type :: renderAll rest

end

theorem renderAll_eq_map (types : List TypeExpr) : renderAll types = types.map render := by
  induction types with
  | nil => rfl
  | cons type rest ih => simp [renderAll, ih]

/-- Whether a name has to be imported. -/
def isImportable (name : String) : Bool :=
  name.toList.contains '.' && !isBuiltinName name

mutual

/-- The names to import for the type and its arguments, at any depth. -/
def importNames : TypeExpr → List String
  | ⟨name, arguments, _, isOpaque⟩ =>
    (if !isOpaque && isImportable name then [name] else []) ++ importNamesOf arguments

/-- The names to import for the types of a list. -/
def importNamesOf : List TypeExpr → List String
  | [] => []
  | type :: rest => importNames type ++ importNamesOf rest

end

theorem importNamesOf_eq_flatMap (types : List TypeExpr) :
    importNamesOf types = types.flatMap importNames := by
  induction types with
  | nil => rfl
  | cons type rest ih => simp [importNamesOf, ih]

end TypeExpr

end ComponentWiring

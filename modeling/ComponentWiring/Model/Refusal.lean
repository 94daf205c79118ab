import ComponentWiring.Model.Diagnostic
import ComponentWiring.Source.ClassHead

/-!
Why nothing is generated for a marked class. The first group is found in the source text, the second
when code is generated, and a repeated class is found when the classes of all files are put
together.
-/

namespace ComponentWiring

open Source

/-- Why nothing is generated for a marked class. -/
inductive Refusal
  /-- It is no class with a primary constructor. -/
  | notAClass (kind : ClassForm)
  /-- It cannot be constructed. -/
  | abstractOrSealed
  /-- It has type parameters. -/
  | generic
  /-- Its constructor or its type parameters do not close. -/
  | unbalanced
  /-- It has secondary constructors only. -/
  | onlySecondary
  /-- Its constructor cannot be called from outside. -/
  | restrictedConstructor (visibility : Visibility)
  /-- A parameter cannot be read. -/
  | unreadableParameter (text : String)
  /-- A parameter takes any number of arguments. -/
  | variadicParameter (name : String)
  /-- Its name is no identifier. -/
  | invalidName (name : String)
  /-- A parameter's name is no identifier. -/
  | invalidParameterName (name : String)
  /-- Two parameters have one name. -/
  | repeatedParameter (name : String)
  /-- A parameter has a name that the builder function uses itself. -/
  | reservedParameter (name : String) (builder : String)
  /-- Another class of the same name came first. -/
  | repeatedDeclaration
  deriving DecidableEq, Repr, Inhabited

namespace Refusal

/-- The reason in words. -/
def message : Refusal → String
  | notAClass kind =>
    "@GenDsl requires a class with a primary constructor, but this is " ++ kind.describe
  | abstractOrSealed => "abstract and sealed classes cannot be constructed"
  | generic => "generic declarations are not supported"
  | unbalanced => "unbalanced parentheses in the primary constructor"
  | onlySecondary => "no primary constructor; only secondary constructors are declared"
  | restrictedConstructor visibility => "primary constructor is " ++ visibility.keyword
  | unreadableParameter text => "cannot read constructor parameter '" ++ text ++ "'"
  | variadicParameter name => "vararg parameter '" ++ name ++ "' is not supported"
  | invalidName name => "'" ++ name ++ "' is not a valid class name"
  | invalidParameterName name => "'" ++ name ++ "' is not a valid parameter name"
  | repeatedParameter name => "parameter '" ++ name ++ "' is declared more than once"
  | reservedParameter name builder =>
    "exposed parameter '" ++ name ++ "' clashes with a name reserved by the generated builder " ++
      builder ++ "()"
  | repeatedDeclaration => "declared more than once; only the first declaration is generated"

/-- The diagnostic that reports a refusal. -/
def diagnostic (refusal : Refusal) (subject : String) (location : Location) : Diagnostic :=
  { severity := .error, rule := .structural, subject, message := refusal.message,
    location := some location }

end Refusal

end ComponentWiring

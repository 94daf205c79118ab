import ComponentWiring.Text.Blank
import ComponentWiring.Text.Lowercase

/-!
Containers for dependency injection. The mode decides how a factory is annotated and how a builder
obtains it, and nothing else. The policy decides whether a class that needs nothing injected gets a
factory at all.
-/

namespace ComponentWiring

/-- The parameter through which a builder reaches the container. -/
structure ContainerParameter where
  name : String
  typeName : String
  importName : String
  deriving DecidableEq, Repr, Inhabited

/-- The handle as a parameter of a function. -/
def ContainerParameter.declaration (handle : ContainerParameter) : String :=
  handle.name ++ ": " ++ handle.typeName

/-- The container that generated code is written for. -/
inductive Mode
  | quarkus
  | spring
  deriving DecidableEq, Repr

namespace Mode

instance : Inhabited Mode := ⟨quarkus⟩

/-- The name of a mode. -/
def name : Mode → String
  | quarkus => "quarkus"
  | spring => "spring"

/-- The mode of a name. -/
def ofName? : String → Option Mode
  | "quarkus" => some quarkus
  | "spring" => some spring
  | _ => none

/-- The parameter through which a builder reaches the container. -/
def handle : Mode → ContainerParameter
  | quarkus => ⟨"container", "ArcContainer", "io.quarkus.arc.ArcContainer"⟩
  | spring => ⟨"context", "ApplicationContext", "org.springframework.context.ApplicationContext"⟩

/-- What stands between the handle and the factory's name, and what stands behind the name, in the
expression that fetches a factory. -/
def fetchParts : Mode → String × String
  | quarkus => (".instance(", "::class.java).get()")
  | spring => (".getBean(", "::class.java)")

/-- The expression that fetches a factory, with marks for the handle and for the factory. -/
def fetchPattern (mode : Mode) : String :=
  "\x7bcontainer\x7d" ++ mode.fetchParts.1 ++ "\x7bfactory\x7d" ++ mode.fetchParts.2

/-- The expression that fetches the factory of a given name. -/
def fetch (mode : Mode) (factory : String) : String :=
  mode.handle.name ++ mode.fetchParts.1 ++ factory ++ mode.fetchParts.2

/-- The annotations above a factory. -/
def factoryAnnotations : Mode → List String
  | quarkus => ["@ApplicationScoped", "@Unremovable"]
  | spring => ["@Component"]

/-- The imports that those annotations need. -/
def factoryImports : Mode → List String
  | quarkus => ["io.quarkus.arc.Unremovable", "jakarta.enterprise.context.ApplicationScoped"]
  | spring => ["org.springframework.stereotype.Component"]

end Mode

/-- What is generated for a class without injected parameters. -/
inductive Policy
  /-- A factory, as for any other class. -/
  | alwaysFactory
  /-- No factory; the builder calls the constructor itself. -/
  | directConstruction
  deriving DecidableEq, Repr

namespace Policy

instance : Inhabited Policy := ⟨alwaysFactory⟩

/-- The name of a policy. -/
def name : Policy → String
  | alwaysFactory => "always-factory"
  | directConstruction => "direct-construction"

/-- The policy of a name. -/
def ofName? : String → Option Policy
  | "always-factory" => some alwaysFactory
  | "direct-construction" => some directConstruction
  | _ => none

end Policy

end ComponentWiring

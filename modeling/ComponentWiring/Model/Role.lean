/-!
Roles of constructor parameters. An *injected* parameter is supplied by the container, an *exposed*
one by the caller. A marker on the parameter decides; parameters without one follow the convention
of their class, which is read off the markers that the class does use.
-/

namespace ComponentWiring

/-- Who supplies a constructor parameter. -/
inductive Role
  /-- The container, through the factory. -/
  | injected
  /-- The caller of `create` and of the builder. -/
  | exposed
  deriving DecidableEq, Repr, Inhabited

/-- The name of a role. -/
def Role.name : Role → String
  | .injected => "injected"
  | .exposed => "exposed"

/-- The role of a name. -/
def Role.ofName? : String → Option Role
  | "injected" => some .injected
  | "exposed" => some .exposed
  | _ => none

/-- The markers on one parameter. -/
structure Markers where
  inject : Bool := false
  expose : Bool := false
  deriving DecidableEq, Repr, Inhabited

/-- Which marker a class uses, and so what an unmarked parameter is. -/
inductive Convention
  /-- Injected parameters are marked and the others are exposed. -/
  | markToInject
  /-- Exposed parameters are marked and the others are injected. -/
  | markToExpose
  deriving DecidableEq, Repr

namespace Convention

instance : Inhabited Convention := ⟨markToInject⟩

/-- The name of a convention. -/
def name : Convention → String
  | markToInject => "mark-to-inject"
  | markToExpose => "mark-to-expose"

/-- The convention of a name. -/
def ofName? : String → Option Convention
  | "mark-to-inject" => some markToInject
  | "mark-to-expose" => some markToExpose
  | _ => none

/-- The role of an unmarked parameter. -/
def unmarked : Convention → Role
  | markToInject => .exposed
  | markToExpose => .injected

/-- The convention that the markers of a class show: any injection marker shows the first, any
exposure marker without one the second, and without markers `fallback` holds. -/
def infer (markers : List Markers) (fallback : Convention) : Convention :=
  if markers.any (·.inject) then markToInject
  else if markers.any (·.expose) then markToExpose
  else fallback

end Convention

/-- The role of a parameter: that of its marker, the injection marker first, and else that of an
unmarked one. -/
def Role.classify (markers : Markers) (convention : Convention) : Role :=
  if markers.inject then .injected
  else if markers.expose then .exposed
  else convention.unmarked

end ComponentWiring

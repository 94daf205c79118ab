import ComponentWiring.Model.Declaration

/-!
The classes of a pass with their supertypes, and which declarations are components. A declaration is
a component if its supertypes lead to one, directly or through other classes that are known. A
supertype that no import explained was left in the package of the class; if it is not known there,
it may also come from any package that the file imports with a star.

The search goes along `Target`s. It keeps the names that it has followed, and since it follows only
names that are known, at most once each, it ends.
-/

namespace ComponentWiring

/-- What is known about a class. -/
structure KnownClass where
  supertypes : List TypeExpr
  starImports : List String := []
  deriving Repr, Inhabited, BEq

/-- The classes of a pass by qualified name. -/
structure ClassHierarchy where
  byName : Keyed KnownClass := Keyed.empty
  deriving Repr, Inhabited

namespace ClassHierarchy

/-- The hierarchy without classes. -/
def empty : ClassHierarchy := {}

/-- Records a class, in place of what was known about the name. -/
def insert (known : ClassHierarchy) (name : String) (supertypes : List TypeExpr)
    (starImports : List String) : ClassHierarchy :=
  ⟨known.byName.insert name ⟨supertypes, starImports⟩⟩

/-- Records a declaration. -/
def insertDeclaration (known : ClassHierarchy) (d : Declaration) : ClassHierarchy :=
  known.insert d.qualifiedName d.supertypes d.starImports

/-- Records all classes of another hierarchy, in place of what was known about their names. -/
def merge (known other : ClassHierarchy) : ClassHierarchy :=
  ⟨known.byName.union other.byName⟩

/-- What is known about a class. -/
def find? (known : ClassHierarchy) (name : String) : Option KnownClass :=
  known.byName.get? name

/-- Whether a class is known. -/
def contains (known : ClassHierarchy) (name : String) : Bool :=
  known.byName.contains name

/-- The direct supertypes of a known class. -/
def supertypes? (known : ClassHierarchy) (name : String) : Option (List TypeExpr) :=
  (known.find? name).map (·.supertypes)

/-- The number of known classes. -/
def size (known : ClassHierarchy) : Nat :=
  known.byName.size

/-- Where a supertype leads. -/
inductive Target
  /-- To the class of a qualified name. -/
  | named (name : String)
  /-- To a component, whatever its name. -/
  | component
  deriving DecidableEq, Repr, Inhabited

/-- The package of a qualified name, empty for a plain one. -/
def packageOf (name : String) : String :=
  (TypeExpr.packagePart? name).getD ""

/-- Where one supertype of the class `owner` leads. -/
def targetsOf (known : ClassHierarchy) (owner : String) (starImports : List String)
    (supertype : TypeExpr) : List Target :=
  if supertype.isOpaque then []
  else
    let direct := Target.named supertype.name
    if known.contains supertype.name || packageOf supertype.name != packageOf owner then [direct]
    else
      direct :: starImports.map fun star =>
        if componentPackages.contains star then .component
        else .named (star ++ "." ++ supertype.simpleName)

/-- Where the supertypes of the class `owner` lead. -/
def targets (known : ClassHierarchy) (owner : String) (supertypes : List TypeExpr)
    (starImports : List String) : List Target :=
  supertypes.flatMap (known.targetsOf owner starImports)

/-- The known names that are not among `visited`. -/
def unvisited (known : ClassHierarchy) (visited : List String) : List String :=
  known.byName.keys.filter fun name => !visited.contains name

theorem length_unvisited_lt {known : ClassHierarchy} {visited : List String} {name : String}
    (hnew : ¬visited.contains name = true) (hknown : name ∈ known.byName.keys) :
    (known.unvisited (name :: visited)).length < (known.unvisited visited).length := by
  have hsub : known.unvisited (name :: visited) =
      (known.unvisited visited).filter (fun other => !(other == name)) := by
    simp only [unvisited, List.filter_filter, List.contains_cons, Bool.not_or]
  have hmem : name ∈ known.unvisited visited := by
    simp only [unvisited, List.mem_filter]
    exact ⟨hknown, by simpa using hnew⟩
  rw [hsub]
  exact List.length_filter_lt_length_iff_exists.2 ⟨name, hmem, by simp⟩

theorem mem_keys_of_find? {known : ClassHierarchy} {name : String} {found : KnownClass}
    (h : known.find? name = some found) : name ∈ known.byName.keys := by
  obtain ⟨⟨entries, _⟩⟩ := known
  simp only [find?, Keyed.get?, Keyed.keys] at h ⊢
  induction entries with
  | nil => simp [Keyed.findEntry] at h
  | cons head rest ih =>
    rw [Keyed.findEntry] at h
    split at h
    · next heq => simp [heq]
    · simp only [List.map_cons, List.mem_cons]
      exact .inr (ih (List.Pairwise.of_cons ‹_›) h)

/-- Whether a list of targets leads to a component without going through the names in `visited`. -/
def leadsToComponent (known : ClassHierarchy) (visited : List String) : List Target → Bool
  | [] => false
  | .component :: _ => true
  | .named name :: work =>
    if isComponentName name then true
    else if _hvisited : visited.contains name then known.leadsToComponent visited work
    else
      match _hfound : known.find? name with
      | none => known.leadsToComponent visited work
      | some found =>
        known.leadsToComponent (name :: visited)
          (known.targets name found.supertypes found.starImports ++ work)
termination_by work => ((known.unvisited visited).length, work.length)
decreasing_by
  · exact Prod.Lex.right _ (by simp)
  · exact Prod.Lex.right _ (by simp)
  · exact Prod.Lex.left _ _ (length_unvisited_lt _hvisited (mem_keys_of_find? _hfound))

/-- Whether a declaration is a component, so that it gets a builder function. -/
def isComponent (known : ClassHierarchy) (d : Declaration) : Bool :=
  known.leadsToComponent [d.qualifiedName]
    (known.targets d.qualifiedName d.supertypes d.starImports)

end ClassHierarchy

end ComponentWiring

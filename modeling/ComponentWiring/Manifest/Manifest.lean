import ComponentWiring.Disk.PathText
import ComponentWiring.Model.ClassHierarchy

/-!
A manifest gives declarations and properties directly, with the classes that are needed to tell
which declarations are components. Only the default expressions are still read from source text,
where a declaration says in which file it stands.
-/

namespace ComponentWiring

/-- A class that is not itself marked. -/
structure ManifestClass where
  name : String
  supertypes : List TypeExpr := []
  starImports : List String := []
  deriving Repr, Inhabited, BEq

/-- Declarations, properties and further classes. -/
structure Manifest where
  declarations : List Declaration := []
  properties : List Property := []
  classes : List ManifestClass := []
  deriving Repr, Inhabited, BEq

namespace Manifest

/-- The classes of a manifest with their supertypes; a declaration counts more than a class of the
same name, and a later one more than an earlier one. -/
def hierarchy (manifest : Manifest) : ClassHierarchy :=
  let classes := manifest.classes.foldl
    (fun hierarchy c => hierarchy.insert c.name c.supertypes c.starImports) ClassHierarchy.empty
  manifest.declarations.foldl ClassHierarchy.insertDeclaration classes

/-- The source file of a declaration, seen from `base`; nothing if the declaration names none. -/
def sourcePath? (base : String) (d : Declaration) : Option String :=
  if d.location.file.isEmpty then none else some (PathText.join base d.location.file)

end Manifest

end ComponentWiring

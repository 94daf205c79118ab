import ComponentWiring.Data.Json.Reader
import ComponentWiring.Data.Record
import ComponentWiring.Data.Toml.Reader
import ComponentWiring.Manifest.Manifest
import ComponentWiring.Model.Failure

/-!
Reading manifests. Only the outermost record is closed; in all others, fields that are not known are
passed over.
-/

namespace ComponentWiring

open Value

namespace Manifest

variable (format : DocumentFormat)

/-- A type. -/
def typeExpr? : (room : Nat) → Value → Option TypeExpr
  | 0, _ => none
  | room + 1, value =>
    match value.record? format false ["name", "arguments", "nullable", "opaque"] with
    | some [name, arguments, nullable, isOpaque] => do
      let arguments ←
        match arguments, room with
        | none, _ => some []
        | some (.array items), inner + 1 => items.mapM (typeExpr? inner)
        | some _, _ => none
      return {
        name := ← required text? name
        arguments
        nullable := ← withDefault false bool? nullable
        isOpaque := ← withDefault false bool? isOpaque }
    | _ => none

/-- A place in a source file. -/
def location? : (room : Nat) → Value → Option Location
  | 0, _ => none
  | _ + 1, value =>
    match value.record? format false ["file", "line"] with
    | some [file, line] => return ⟨← required text? file, ← required count? line⟩
    | _ => none

/-- A parameter. -/
def parameter? : (room : Nat) → Value → Option Parameter
  | 0, _ => none
  | room + 1, value =>
    match value.record? format false
        ["name", "type_ref", "role", "has_default", "default_expression"] with
    | some [name, type, role, hasDefault, expression] =>
      return {
        name := ← required text? name
        type := ← required (typeExpr? format room) type
        role := ← required (choice? format Role.ofName? room) role
        hasDefault := ← withDefault false bool? hasDefault
        defaultExpression := ← withDefault none nullableText? expression }
    | _ => none

/-- A declaration. -/
def declaration? : (room : Nat) → Value → Option Declaration
  | 0, _ => none
  | room + 1, value =>
    match value.record? format false
        ["name", "package", "parameters", "supertypes", "star_imports", "location"] with
    | some [name, package, parameters, supertypes, stars, location] =>
      return {
        name := ← required text? name
        package := ← withDefault "" text? package
        parameters := ← withDefault [] (listOf? (parameter? format) room) parameters
        supertypes := ← withDefault [] (listOf? (typeExpr? format) room) supertypes
        starImports := ← withDefault [] (texts? room) stars
        location := ← withDefault {} (location? format room) location }
    | _ => none

/-- A property. -/
def property? : (room : Nat) → Value → Option Property
  | 0, _ => none
  | room + 1, value =>
    match value.record? format false
        ["owner", "package", "name", "type_ref", "visibility", "star_imports", "location"] with
    | some [owner, package, name, type, visibility, stars, location] =>
      return {
        owner := ← required text? owner
        package := ← withDefault "" text? package
        name := ← required text? name
        type := ← required (typeExpr? format room) type
        visibility :=
          ← withDefault .everywhere (choice? format Visibility.ofKeyword? room) visibility
        starImports := ← withDefault [] (texts? room) stars
        location := ← withDefault {} (location? format room) location }
    | _ => none

/-- A class that is not itself marked. -/
def class? : (room : Nat) → Value → Option ManifestClass
  | 0, _ => none
  | room + 1, value =>
    match value.record? format false ["name", "supertypes", "star_imports"] with
    | some [name, supertypes, stars] =>
      return {
        name := ← required text? name
        supertypes := ← withDefault [] (listOf? (typeExpr? format) room) supertypes
        starImports := ← withDefault [] (texts? room) stars }
    | _ => none

/-- A manifest. -/
def ofValue? : (room : Nat) → Value → Option Manifest
  | 0, _ => none
  | room + 1, value =>
    match value.record? format true ["declarations", "properties", "classes"] with
    | some [declarations, properties, classes] =>
      return {
        declarations := ← withDefault [] (listOf? (declaration? format) room) declarations
        properties := ← withDefault [] (listOf? (property? format) room) properties
        classes := ← withDefault [] (listOf? (class? format) room) classes }
    | _ => none

/-- How deep a manifest in JSON may be nested. -/
def maxJsonDepth : Nat := 127

/-- The manifest that a text in JSON stands for. -/
def ofJson? (text : String) : Option Manifest :=
  (Json.read? text.toList).bind (ofValue? .json maxJsonDepth)

/-- The manifest that a text in TOML stands for. -/
def ofToml? (text : String) : Option Manifest :=
  (Toml.read? text.toList).bind fun value => ofValue? .toml (value.depth + 1) value

/-- The name that a manifest has in reports if it does not come from a file. -/
def inlineName : String := "<inline>"

/-- A manifest that was read, or the fault of the path it comes from. -/
def orMalformed (path : String) (found : Option Manifest) : Except Failure Manifest :=
  match found with
  | some manifest => .ok manifest
  | none => .error (.manifest path .malformed)

/-- Reads a manifest from a file, in the format that the extension of the file says. -/
def load (disk : Disk) (path : String) : Except Failure Manifest :=
  match disk.read path with
  | .error fault => .error (.io path fault)
  | .ok text =>
    match PathText.extension? path with
    | some "json" => orMalformed path (ofJson? text)
    | some "toml" => orMalformed path (ofToml? text)
    | other => .error (.manifest path (.unknownExtension (other.getD "")))

end Manifest

end ComponentWiring

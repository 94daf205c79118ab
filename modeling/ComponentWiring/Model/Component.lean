import ComponentWiring.Model.TypeExpr

/-!
The names that are known in advance: the component types of the user-interface framework and the
packages that hold nothing else, the two kinds of signal wrapper a property can have, and the types
that every source file sees without an import.
-/

namespace ComponentWiring

open Text

/-- The types that make every subtype a component. -/
def componentBases : List String :=
  ["com.vaadin.flow.component.Component", "com.vaadin.flow.component.Composite"]

/-- The packages whose types are all components. -/
def componentPackages : List String := [
  "com.vaadin.flow.component",
  "com.vaadin.flow.component.accordion",
  "com.vaadin.flow.component.applayout",
  "com.vaadin.flow.component.avatar",
  "com.vaadin.flow.component.board",
  "com.vaadin.flow.component.button",
  "com.vaadin.flow.component.charts",
  "com.vaadin.flow.component.checkbox",
  "com.vaadin.flow.component.combobox",
  "com.vaadin.flow.component.confirmdialog",
  "com.vaadin.flow.component.contextmenu",
  "com.vaadin.flow.component.cookieconsent",
  "com.vaadin.flow.component.crud",
  "com.vaadin.flow.component.customfield",
  "com.vaadin.flow.component.datepicker",
  "com.vaadin.flow.component.datetimepicker",
  "com.vaadin.flow.component.details",
  "com.vaadin.flow.component.dialog",
  "com.vaadin.flow.component.formlayout",
  "com.vaadin.flow.component.grid",
  "com.vaadin.flow.component.gridpro",
  "com.vaadin.flow.component.html",
  "com.vaadin.flow.component.icon",
  "com.vaadin.flow.component.inputfield",
  "com.vaadin.flow.component.listbox",
  "com.vaadin.flow.component.login",
  "com.vaadin.flow.component.map",
  "com.vaadin.flow.component.menubar",
  "com.vaadin.flow.component.messages",
  "com.vaadin.flow.component.notification",
  "com.vaadin.flow.component.orderedlayout",
  "com.vaadin.flow.component.progressbar",
  "com.vaadin.flow.component.radiobutton",
  "com.vaadin.flow.component.richtexteditor",
  "com.vaadin.flow.component.select",
  "com.vaadin.flow.component.shared",
  "com.vaadin.flow.component.sidenav",
  "com.vaadin.flow.component.splitlayout",
  "com.vaadin.flow.component.spreadsheet",
  "com.vaadin.flow.component.tabs",
  "com.vaadin.flow.component.textfield",
  "com.vaadin.flow.component.timepicker",
  "com.vaadin.flow.component.treegrid",
  "com.vaadin.flow.component.upload",
  "com.vaadin.flow.component.virtuallist"]

/-- Whether a qualified name is a component by itself: one of the bases, or a member of a component
package. -/
def isComponentName (name : String) : Bool :=
  componentBases.contains name ||
    match TypeExpr.packagePart? name with
    | some package => componentPackages.contains package
    | none => false

/-! ## Signal wrappers -/

/-- The two wrappers that a property can be bound through. -/
inductive SignalKind
  /-- A signal that can be written. -/
  | mutable
  /-- A signal that can only be read. -/
  | readOnly
  deriving DecidableEq, Repr, Inhabited

namespace SignalKind

/-- Every kind, in the order in which a type is compared with them. -/
def all : List SignalKind := [mutable, readOnly]

/-- The name of the kind in reports. -/
def name : SignalKind → String
  | mutable => "mutable"
  | readOnly => "read-only"

/-- The wrapper that a bound property has. -/
def bindableName : SignalKind → String
  | mutable => "com.github.fenrur.signal.BindableMutableSignal"
  | readOnly => "com.github.fenrur.signal.BindableSignal"

/-- The wrapper that a property is bound to. -/
def counterpartName : SignalKind → String
  | mutable => "com.github.fenrur.signal.MutableSignal"
  | readOnly => "com.github.fenrur.signal.Signal"

/-- The kind of signal that a type is. A qualified name has to be that of the bindable type; a
simple one, which no import explained, has to be its simple name. -/
def of? (type : TypeExpr) : Option SignalKind :=
  if type.isOpaque then none
  else
    all.find? fun kind =>
      if type.name.toList.contains '.' then type.name == kind.bindableName
      else TypeExpr.lastPart kind.bindableName == type.name

end SignalKind

/-- Whether a qualified name is known to exist, so that a simple name may come from the package. -/
def isKnownType (name : String) : Bool :=
  componentBases.contains name ||
    SignalKind.all.any fun kind => kind.bindableName == name || kind.counterpartName == name

/-! ## Types that need no import -/

/-- The simple names that every file sees, with the qualified names they stand for. -/
def builtinTypes : List (String × String) := [
  ("Any", "kotlin.Any"),
  ("Array", "kotlin.Array"),
  ("Boolean", "kotlin.Boolean"),
  ("Byte", "kotlin.Byte"),
  ("Char", "kotlin.Char"),
  ("CharSequence", "kotlin.CharSequence"),
  ("Collection", "kotlin.collections.Collection"),
  ("Double", "kotlin.Double"),
  ("Float", "kotlin.Float"),
  ("Int", "kotlin.Int"),
  ("Iterable", "kotlin.collections.Iterable"),
  ("List", "kotlin.collections.List"),
  ("Long", "kotlin.Long"),
  ("Map", "kotlin.collections.Map"),
  ("MutableCollection", "kotlin.collections.MutableCollection"),
  ("MutableList", "kotlin.collections.MutableList"),
  ("MutableMap", "kotlin.collections.MutableMap"),
  ("MutableSet", "kotlin.collections.MutableSet"),
  ("Nothing", "kotlin.Nothing"),
  ("Number", "kotlin.Number"),
  ("Pair", "kotlin.Pair"),
  ("Set", "kotlin.collections.Set"),
  ("Short", "kotlin.Short"),
  ("String", "kotlin.String"),
  ("Triple", "kotlin.Triple"),
  ("UByte", "kotlin.UByte"),
  ("UInt", "kotlin.UInt"),
  ("ULong", "kotlin.ULong"),
  ("UShort", "kotlin.UShort"),
  ("Unit", "kotlin.Unit")]

/-- The qualified name of a simple name that every file sees. -/
def builtin? (simple : String) : Option String :=
  builtinTypes.lookup simple

end ComponentWiring

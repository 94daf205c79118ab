/-!
Values of structured documents: what a manifest, a settings file, a report and the context of a
template are made of. The fields of an object keep the order in which they were written, and a
document may write a field twice; a printed object has its fields in the order of the list.
-/

namespace ComponentWiring

/-- A value of a structured document. -/
inductive Value
  | null
  | bool (b : Bool)
  | integer (n : Int)
  /-- A number with a fraction or an exponent, as it is written. -/
  | decimal (text : String)
  | string (s : String)
  | array (items : List Value)
  | object (fields : List (String × Value))
  /-- A value that no setting and no manifest field can take: a date, or text that is not
  Unicode. -/
  | foreign
  deriving Repr, Inhabited, BEq

namespace Value

/-- A text as a value; nothing is null. -/
def ofText? : Option String → Value
  | some s => .string s
  | none => .null

/-- Texts as a value. -/
def ofTexts (texts : List String) : Value :=
  .array (texts.map .string)

mutual

/-- How deep arrays and objects are nested. -/
def depth : Value → Nat
  | .array items => depthOfItems items + 1
  | .object fields => depthOfFields fields + 1
  | _ => 0

/-- How deep the deepest of some values is nested. -/
def depthOfItems : List Value → Nat
  | [] => 0
  | item :: rest => max (depth item) (depthOfItems rest)

/-- How deep the deepest of some fields is nested. -/
def depthOfFields : List (String × Value) → Nat
  | [] => 0
  | (_, value) :: rest => max (depth value) (depthOfFields rest)

end

/-- Fields in the order of their names. -/
def inOrder {α : Type} (fields : List (String × α)) : List (String × α) :=
  fields.mergeSort fun a b => a.1 ≤ b.1

mutual

/-- The value with the fields of every object in the order of their names. -/
def sortFields : Value → Value
  | .array items => .array (sortItems items)
  | .object fields => .object (inOrder (sortInside fields))
  | value => value

/-- Values with sorted objects in them. -/
def sortItems : List Value → List Value
  | [] => []
  | item :: rest => sortFields item :: sortItems rest

/-- Fields with sorted objects in them. -/
def sortInside : List (String × Value) → List (String × Value)
  | [] => []
  | (name, value) :: rest => (name, sortFields value) :: sortInside rest

end

/-- The value of a field of an object; of two fields of one name the later one counts. -/
def field? (name : String) : Value → Option Value
  | .object fields => fields.reverse.lookup name
  | _ => none

end Value

end ComponentWiring

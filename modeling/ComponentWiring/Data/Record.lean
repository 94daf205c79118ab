import ComponentWiring.Data.Value

/-!
Reading records, lists and choices from the values of a document. A record may be written as an
object or as a list of its fields in their order, and a choice as its name or as an object with the
name as its only key. The formats differ in what a list may hold beyond the fields and in what
stands under the key of a choice.

`room` is the number of levels that a value may still be nested.
-/

namespace ComponentWiring

/-- The format of a document. -/
inductive DocumentFormat
  | json
  | toml
  deriving DecidableEq, Repr, Inhabited

namespace Value

/-- A text. -/
def text? : Value → Option String
  | .string s => some s
  | _ => none

/-- A truth value. -/
def bool? : Value → Option Bool
  | .bool b => some b
  | _ => none

/-- A number of lines, files and the like, in the range of 64 bits. -/
def count? : Value → Option Nat
  | .integer n => if 0 ≤ n ∧ n < Int.pow 2 64 then some n.toNat else none
  | _ => none

/-- The items of a list, each read with one level less. -/
def listOf? {α : Type} (item : (room : Nat) → Value → Option α) :
    (room : Nat) → Value → Option (List α)
  | room + 1, .array items => items.mapM (item room)
  | _, _ => none

/-- A list of texts. -/
def texts? (room : Nat) (value : Value) : Option (List String) :=
  listOf? (fun _ => text?) room value

/-- Whether a value stands for nothing under the key of a choice. -/
def isUnit (format : DocumentFormat) : Value → Bool
  | .null => format == .json
  | .array items => format == .toml && items.isEmpty
  | .object fields => format == .toml && fields.isEmpty
  | _ => false

/-- One of several names. -/
def choice? {α : Type} (format : DocumentFormat) (ofName? : String → Option α) (room : Nat) :
    Value → Option α
  | .string name => ofName? name
  | .object [(name, value)] => if room > 0 && isUnit format value then ofName? name else none
  | _ => none

/-- The fields of a record, in the order of their names; a field may be missing. A known name may
come only once, and in a closed record only known names may come. -/
def record? (format : DocumentFormat) (closed : Bool) (names : List String) :
    Value → Option (List (Option Value))
  | .object fields =>
    let keys := fields.map (·.1)
    if names.any (fun name => keys.count name > 1) then none
    else if closed && !keys.all names.contains then none
    else some (names.map fun name => fields.lookup name)
  | .array items =>
    if format = .json ∧ items.length > names.length then none
    else some (names.mapIdx fun i _ => items[i]?)
  | _ => none

/-- A field that has to be there. -/
def required {α : Type} (read : Value → Option α) (field : Option Value) : Option α :=
  field.bind read

/-- A field that has a default. -/
def withDefault {α : Type} (default : α) (read : Value → Option α) : Option Value → Option α
  | none => some default
  | some value => read value

/-- A text that may be null. -/
def nullableText? : Value → Option (Option String)
  | .null => some none
  | value => value.text?.map some

end Value

end ComponentWiring

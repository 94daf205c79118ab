import ComponentWiring.Disk.Disk

/-!
The steps that lead from one disk to another: what is gone is removed, from the deepest place
upwards, and what is new or different is written, from the root downwards.
-/

namespace ComponentWiring.Disk

/-- A step at a place. -/
inductive Change
  | removeFile (place : Place)
  | removeDirectory (place : Place)
  | makeDirectory (place : Place)
  | writeText (place : Place) (content : String)
  | writeBytes (place : Place) (bytes : List UInt8)
  deriving DecidableEq, Repr, Inhabited

/-- The step that removes an entry. -/
def removal : Place × Entry → Change
  | (place, .directory) => .removeDirectory place
  | (place, _) => .removeFile place

/-- The step that writes an entry. -/
def creation : Place × Entry → Change
  | (place, .directory) => .makeDirectory place
  | (place, .text content) => .writeText place content
  | (place, .binary bytes) => .writeBytes place bytes

/-- Entries with the shorter places first. -/
def byDepth (entries : List (Place × Entry)) : List (Place × Entry) :=
  entries.mergeSort fun a b => a.1.length ≤ b.1.length

/-- The steps that lead from one disk to another. -/
def changesTo (disk target : Disk) : List Change :=
  let gone := disk.entries.filter fun e => (target.entry? e.1).isNone
  let new := target.entries.filter fun e => disk.entry? e.1 != some e.2
  (byDepth gone).reverse.map removal ++ (byDepth new).map creation

end ComponentWiring.Disk

import ComponentWiring.Disk.PathText
import ComponentWiring.Text.Position
import ComponentWiring.Text.Utf8

/-!
Directories and files. A `Disk` holds an entry for every directory and file, by its components from
the root, and knows the working directory; `entry?` is the view. A path is followed component by
component, and everything that an operation refuses comes with the fault that a system reports.
-/

namespace ComponentWiring

/-- Why an operation on a path failed. -/
inductive IoFault
  | notFound
  | alreadyExists
  | notADirectory
  | isADirectory
  | nameTooLong
  /-- The file does not hold text. -/
  | notText
  /-- The path holds a null character. -/
  | nullInPath
  deriving DecidableEq, Repr, Inhabited

/-- The fault in words. -/
def IoFault.message : IoFault → String
  | notFound => "No such file or directory (os error 2)"
  | alreadyExists => "File exists (os error 17)"
  | notADirectory => "Not a directory (os error 20)"
  | isADirectory => "Is a directory (os error 21)"
  | nameTooLong => "File name too long (os error 36)"
  | notText => "stream did not contain valid UTF-8"
  | nullInPath => "file name contained an unexpected NUL byte"

/-- A place on the disk: its components from the root. -/
abbrev Place := List String

/-- What stands at a place. -/
inductive Entry
  | directory
  /-- A file that holds text. -/
  | text (content : String)
  /-- A file that holds something else. -/
  | binary (bytes : List UInt8)
  deriving DecidableEq, Repr, Inhabited

/-- A file of the given bytes. -/
def Entry.ofBytes (bytes : List UInt8) : Entry :=
  match Text.decodeUtf8? bytes with
  | some content => .text content
  | none => .binary bytes

/-- Directories and files, and the working directory. -/
structure Disk where
  entries : List (Place × Entry) := []
  home : Place := []
  deriving Repr, Inhabited

namespace Disk

/-! ## Places -/

/-- A place as an absolute path. -/
def pathOf (place : Place) : String :=
  "/" ++ "/".intercalate place

/-- What stands at a place; the root is always a directory. -/
def entry? (disk : Disk) (place : Place) : Option Entry :=
  if place.isEmpty then some .directory else disk.entries.lookup place

/-- Puts an entry at a place, instead of what was there. -/
def put (disk : Disk) (place : Place) (entry : Entry) : Disk :=
  { disk with entries := disk.entries.filter (·.1 != place) ++ [(place, entry)] }

/-- Takes the entry at a place away. -/
def erase (disk : Disk) (place : Place) : Disk :=
  { disk with entries := disk.entries.filter (·.1 != place) }

/-- Takes away what stands at a place and below it. -/
def eraseTree (disk : Disk) (place : Place) : Disk :=
  { disk with entries := disk.entries.filter fun e => !place.isPrefixOf e.1 }

/-- Whether a directory stands at a place. -/
def isDirectoryAt (disk : Disk) (place : Place) : Bool :=
  disk.entry? place == some .directory

/-- The names in a directory, in order. -/
def names (disk : Disk) (place : Place) : List String :=
  (disk.entries.filterMap fun (other, _) =>
    if !other.isEmpty && other.dropLast == place then other.getLast? else none).mergeSort

/-! ## Following a path -/

/-- The longest name, in bytes. -/
def maxNameLength : Nat := 255

/-- The place that a component leads to. The working directory can be passed through even where it
has been taken away, but no name is looked up in it then. -/
def enter (disk : Disk) (place : Place) (part : String) : Except IoFault Place :=
  if !(disk.isDirectoryAt place || place == disk.home) then
    .error (if (disk.entry? place).isSome then .notADirectory else .notFound)
  else if PathText.isIdle part then .ok place
  else if part == ".." then .ok place.dropLast
  else if Text.byteLength part.toList > maxNameLength then
    .error (if disk.isDirectoryAt place then .nameTooLong else .notFound)
  else .ok (place ++ [part])

/-- The place that components lead to. Every component but the last has to lead to something. -/
def follow (disk : Disk) (start : Place) (parts : List String) : Except IoFault Place :=
  parts.foldlM disk.enter start

/-- The place that a path names, whether or not something stands there. -/
def place (disk : Disk) (path : String) : Except IoFault Place :=
  if path.toList.contains '\x00' then .error .nullInPath
  else if path.isEmpty then .error .notFound
  else if PathText.isAbsolute path then disk.follow [] (PathText.parts path)
  else disk.follow disk.home (PathText.parts path)

/-- The place of what stands at a path. -/
def find (disk : Disk) (path : String) : Except IoFault Place := do
  let place ← disk.place path
  if (disk.entry? place).isSome || place == disk.home then return place
  else throw .notFound

/-- Whether something stands at a path. -/
def contains (disk : Disk) (path : String) : Bool :=
  (disk.find path).toBool

/-- Whether a directory stands at a path. -/
def isDirectory (disk : Disk) (path : String) : Bool :=
  match disk.find path with
  | .ok place => disk.isDirectoryAt place || place == disk.home
  | .error _ => false

/-- The absolute path of what stands at a path, as a place. -/
def canonical (disk : Disk) (path : String) : Except IoFault Place := do
  let place ← disk.find path
  if (disk.entry? place).isSome then return place else throw .notFound

/-- The text of an entry. -/
def textOf : Option Entry → Except IoFault String
  | some (.text content) => .ok content
  | some (.binary _) => .error .notText
  | some .directory => .error .isADirectory
  | none => .error .notFound

/-- The text of the file at a path. -/
def read (disk : Disk) (path : String) : Except IoFault String := do
  textOf (disk.entry? (← disk.canonical path))

/-! ## Writing -/

/-- Writes a text file at a place, over a file that is there. -/
def write (disk : Disk) (place : Place) (content : String) : Except IoFault Disk :=
  if (pathOf place).toList.contains '\x00' then .error .nullInPath
  else if disk.isDirectoryAt place then .error .isADirectory
  else
    (disk.enter place.dropLast (place.getLast?.getD "")).map fun _ =>
      disk.put place (.text content)

/-- Moves the file at one place to another, over a file that is there. -/
def rename (disk : Disk) (source target : Place) : Except IoFault Disk :=
  match disk.entry? source with
  | none => .error .notFound
  | some entry =>
    if disk.isDirectoryAt target then .error .isADirectory
    else .ok ((disk.erase source).put target entry)

/-- The parts of a path without its trailing slashes, split before the last one. -/
def lastPart (parts : List String) : List String × String :=
  let kept := (parts.reverse.dropWhile (·.isEmpty)).reverse
  (kept.dropLast, kept.getLast?.getD "")

/-- Makes a directory. -/
def makeDirectory (disk : Disk) (path : String) : Except IoFault Disk := do
  if path.toList.contains '\x00' then throw .nullInPath
  if path.isEmpty then throw .notFound
  let start := if PathText.isAbsolute path then [] else disk.home
  let (above, name) := lastPart (PathText.parts path)
  let place ← disk.follow start above
  let target ← disk.enter place name
  if target == place || name == ".." || (disk.entry? target).isSome then throw .alreadyExists
  if !disk.isDirectoryAt place then throw .notFound
  return disk.put target .directory

/-- Makes a directory and first those above it that are missing. Directories that were made stay
where a later step fails. -/
def makeDirectories : (fuel : Nat) → Disk → String → Except IoFault Unit × Disk
  | 0, disk, _ => (.ok (), disk)
  | fuel + 1, disk, path =>
    let attempt (disk : Disk) : Except IoFault Unit × Disk :=
      match disk.makeDirectory path with
      | .ok disk => (.ok (), disk)
      | .error fault => if disk.isDirectory path then (.ok (), disk) else (.error fault, disk)
    if path.isEmpty then (.ok (), disk)
    else
      match disk.makeDirectory path with
      | .error .notFound =>
        match PathText.parent? path with
        | none => attempt disk
        | some above =>
          match makeDirectories fuel disk above with
          | (.ok (), disk) => attempt disk
          | failed => failed
      | _ => attempt disk

/-- Makes a directory with all directories above it. A path has fewer components than it has
characters, which bounds the way up. -/
def ensureDirectory (disk : Disk) (path : String) : Except IoFault Unit × Disk :=
  makeDirectories (path.length + 1) disk path

/-! ## Building a disk -/

/-- Puts an entry at a place and a directory at every missing place above it. -/
def putWithin (disk : Disk) (start : Place) (parts : List String) (entry : Entry) : Disk :=
  match parts with
  | [] => disk
  | [name] => disk.put (start ++ [name]) entry
  | name :: rest =>
    let place := start ++ [name]
    let disk := if (disk.entry? place).isSome then disk else disk.put place .directory
    putWithin disk place rest entry

/-- What stands below a directory: the files, and the directories in which nothing stands, by the
components that lead to them. -/
def listing (disk : Disk) (place : Place) : List (List String × Entry) :=
  disk.entries.filterMap fun (other, entry) =>
    if place.isPrefixOf other && other != place &&
        (entry != .directory || (disk.names other).isEmpty) then
      some (other.drop place.length, entry)
    else none

end Disk

end ComponentWiring

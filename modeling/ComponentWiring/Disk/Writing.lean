import ComponentWiring.Disk.FileTree

/-!
Writing generated files. The output root is emptied first if that is wanted, then all directories
are made, and then the files are written in the order of their paths, either in place or through a
neighbouring file that is moved over the old one. What was done before a fault stays done.
-/

namespace ComponentWiring

/-- How files are written. -/
structure WriteOptions where
  /-- Through a neighbouring file. -/
  atomic : Bool := true
  /-- Over files that are there. -/
  overwrite : Bool := true
  /-- Into a root that is emptied first. -/
  clean : Bool := false
  deriving DecidableEq, Repr, Inhabited

namespace FileTree

/-- The result of a step that changes the disk even where it fails. -/
abbrev Effect (α : Type) := Except OutputFault α × Disk

/-- Goes on with a next step if there was no fault. -/
def Effect.next {α β : Type} (effect : Effect α) (step : Disk → α → Effect β) : Effect β :=
  match effect with
  | (.ok value, disk) => step disk value
  | (.error fault, disk) => (.error fault, disk)

/-- A step on the disk that is left alone by a fault. -/
def attempt (disk : Disk) (path : String) (result : Except IoFault Disk) : Effect Unit :=
  match result with
  | .ok disk => (.ok (), disk)
  | .error fault => (.error (.io path fault), disk)

/-- Makes a directory and those above it. -/
def makeDirectory (disk : Disk) (path : String) : Effect Unit :=
  match disk.ensureDirectory path with
  | (.ok (), disk) => (.ok (), disk)
  | (.error fault, disk) => (.error (.io path fault), disk)

/-- Takes the output root away, but never the root of the disk. -/
def cleanRoot (disk : Disk) (root : String) : Effect Unit :=
  match disk.canonical root with
  | .error fault => (.error (.io root fault), disk)
  | .ok place =>
    if place.isEmpty then (.error (.invalidPath (Disk.pathOf place) .rootOfDisk), disk)
    else (.ok (), disk.eraseTree place)

/-- The place of the output root, which is made if it is missing and emptied if that is wanted. -/
def prepareRoot (disk : Disk) (root : String) (clean : Bool) : Effect Place :=
  if disk.contains root && !disk.isDirectory root then
    (.error (.invalidPath root .rootIsNoDirectory), disk)
  else
    let cleaned : Effect Unit :=
      if clean && disk.contains root then cleanRoot disk root else (.ok (), disk)
    cleaned.next fun disk _ =>
      (makeDirectory disk root).next fun disk _ =>
        match disk.canonical root with
        | .ok place => (.ok place, disk)
        | .error fault => (.error (.io root fault), disk)

/-- The components of a path under the root. -/
def components (path : String) : List String :=
  PathText.parts path

/-- Whether one place comes before another: component by component. -/
def placePrecedes : Place → Place → Bool
  | [], _ => true
  | _ :: _, [] => false
  | a :: as, b :: bs => if a = b then placePrecedes as bs else decide (a < b)

/-- The directories of the files under a root, in order. -/
def directories (tree : FileTree) (root : Place) : List Place :=
  let above := tree.files.keys.map fun path => root ++ (components path).dropLast
  ((above.filter (· != root)).eraseDups).mergeSort placePrecedes

/-- Makes directories one after the other. -/
def makeAll : Disk → List Place → Effect Unit
  | disk, [] => (.ok (), disk)
  | disk, place :: rest =>
    (makeDirectory disk (Disk.pathOf place)).next fun disk _ => makeAll disk rest

/-- The name of the neighbouring file through which a file is written. -/
def temporary (place : Place) : Place :=
  place.dropLast ++ [place.getLast?.getD "" ++ ".tmp"]

/-- Writes one file; the result says whether it was written. -/
def writeFile (disk : Disk) (options : WriteOptions) (place : Place) (content : String) :
    Effect Bool :=
  if !options.overwrite && (disk.entry? place).isSome then (.ok false, disk)
  else if options.atomic then
    let aside := temporary place
    (attempt disk (Disk.pathOf aside) (disk.write aside content)).next fun disk _ =>
      (attempt disk (Disk.pathOf place) (disk.rename aside place)).next fun disk _ =>
        (.ok true, disk)
  else
    (attempt disk (Disk.pathOf place) (disk.write place content)).next fun disk _ =>
      (.ok true, disk)

/-- Writes files one after the other and counts those that were written. -/
def writeAll (options : WriteOptions) (root : Place) :
    (written : Nat) → Disk → List (String × String) → Effect Nat
  | written, disk, [] => (.ok written, disk)
  | written, disk, (path, content) :: rest =>
    (writeFile disk options (root ++ components path) content).next fun disk wrote =>
      writeAll options root (if wrote then written + 1 else written) disk rest

/-- Writes files of the tree under a root in the given order, which is any order where they are
written side by side. -/
def writeInOrder (tree : FileTree) (files : List (String × String)) (disk : Disk) (root : String)
    (options : WriteOptions) : Effect Nat :=
  (prepareRoot disk root options.clean).next fun disk place =>
    (makeAll disk (tree.directories place)).next fun disk _ =>
      writeAll options place 0 disk files

/-- Writes the tree under a root. The result is the number of files that were written. -/
def writeTo (tree : FileTree) (disk : Disk) (root : String) (options : WriteOptions) :
    Effect Nat :=
  tree.writeInOrder tree.files.entries disk root options

end FileTree

end ComponentWiring

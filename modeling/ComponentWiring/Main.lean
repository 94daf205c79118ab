import ComponentWiring.Command.Program
import ComponentWiring.Disk.Changes

/-!
The program at a terminal. It reads into a disk what the command line, the settings file and the
manifest name, runs the program on it, writes what has changed, and prints. Everything is decided in
between, without input or output.
-/

namespace ComponentWiring.Terminal

/-! ## Reading -/

/-- The disk with what really stands at a place, as far as it can be read. -/
def loadEntry (disk : Disk) (place : Place) : IO Disk := do
  try
    let real ← IO.FS.realPath (Disk.pathOf place)
    if ← real.isDir then return disk.put place .directory
    let bytes ← IO.FS.readBinFile (Disk.pathOf place)
    return disk.put place (.ofBytes bytes.toList)
  catch _ => return disk

/-- The disk with what really stands at a place and below it. -/
partial def loadTree (disk : Disk) (place : Place) : IO Disk := do
  let mut disk ← loadEntry disk place
  if disk.isDirectoryAt place then
    try
      let real ← IO.FS.realPath (Disk.pathOf place)
      for entry in ← real.readDir do
        disk ← loadTree disk (place ++ [entry.fileName])
    catch _ => pure ()
  return disk

/-- The disk with what really stands on a path and below it. -/
def loadPath (disk : Disk) (path : String) : IO Disk := do
  let mut disk := disk
  let mut place := if PathText.isAbsolute path then [] else disk.home
  for part in PathText.parts path do
    if part == ".." then place := place.dropLast
    else if !PathText.isIdle part then
      place := place ++ [part]
      disk ← loadEntry disk place
  loadTree disk place

/-- The disk with all that stands on some paths. -/
def loadPaths (disk : Disk) (paths : List String) : IO Disk :=
  paths.foldlM loadPath disk

/-- The disk with what the settings name, and with the source files that a manifest names. -/
def loadSettings (disk : Disk) (c : Configuration) : IO Disk := do
  let disk ← loadPaths disk (c.sources ++ c.manifest.toList ++ [c.outputDirectory])
  match c.manifest with
  | none => return disk
  | some path =>
    match Manifest.load disk path with
    | .error _ => return disk
    | .ok manifest =>
      let base := PathText.directoryOf path
      loadPaths disk (manifest.declarations.filterMap (Manifest.sourcePath? base))

/-- The disk with what a command needs. -/
def loadCommand (disk : Disk) : Command → IO Disk
  | .generate options => do
    let disk ← loadPaths disk options.configuration.toList
    match options.resolve disk with
    | .ok c => loadSettings disk c
    | .error _ => return disk
  | .scan sources _ => loadPaths disk sources
  | .completions _ => return disk

/-- The disk with the working directory only. -/
def startDisk : IO Disk := do
  let home := (PathText.parts (← IO.currentDir).toString).filter (!·.isEmpty)
  let disk : Disk := { home }
  return disk.putWithin [] home .directory

/-! ## Writing -/

/-- Takes one step on the real disk. -/
def apply : Disk.Change → IO Unit
  | .removeFile place => IO.FS.removeFile (Disk.pathOf place)
  | .removeDirectory place => IO.FS.removeDir (Disk.pathOf place)
  | .makeDirectory place => IO.FS.createDirAll (Disk.pathOf place)
  | .writeText place content => IO.FS.writeFile (Disk.pathOf place) content
  | .writeBytes place bytes => IO.FS.writeBinFile (Disk.pathOf place) (ByteArray.mk bytes.toArray)

/-- Whether colours are wanted: at a terminal, and unless the environment says no. -/
def wantsColor : IO Bool := do
  if (← IO.getEnv "NO_COLOR").isSome then return false
  (← IO.getStdout).isTty

/-- Runs the program on its arguments. The result is the exit code. -/
def run (arguments : List String) : IO UInt32 := do
  let environmentMode ← IO.getEnv "DSLGEN_MODE"
  let start ← startDisk
  let disk ←
    match Invocation.parse environmentMode arguments with
    | .ok invocation => loadCommand start invocation.command
    | .error _ => pure start
  let result := runProgram environmentMode arguments disk (← wantsColor)
  (disk.changesTo result.disk).forM apply
  IO.print result.stdout
  IO.eprint result.stderr
  return UInt32.ofNat result.exitCode

end ComponentWiring.Terminal

/-- The program. -/
def main (arguments : List String) : IO UInt32 :=
  ComponentWiring.Terminal.run arguments

/-
The program on the disk of the machine. What a command looks at is read before it runs, and what it
has changed is written back afterwards. A watch looks at its folders again and again, each time
after the quiet period, and takes in the files whose time of change or size is another one.
-/
import Repath.CommandLine

namespace Repath.Machine

def string (t : Text) : String :=
  String.ofList t

/-- The path that a name stands for. -/
def pathOf (name : Text) :=
  { root := ".", fileName := string name : IO.FS.DirEntry }.path

/-! ## Reading and writing -/

/-- Takes in a file, or makes known that a folder is there. -/
def load (disk : Disk) (name : Text) : IO Disk := do
  let path := pathOf name
  if ← path.isDir then return (disk.makeFolders name).1
  try return disk.write name (← IO.FS.readBinFile path).toList
  catch _ => return disk

/-- A name behind those of the folders it goes through, outermost first; `turns` bounds them. -/
def nameWithFolders : Nat → Text → List Text
  | 0, name => [name]
  | turns + 1, name =>
    match PathName.parent? name with
    | none => [name]
    | some folder => if folder.isEmpty then [name] else nameWithFolders turns folder ++ [name]

/-- Takes in what a name leads to, and what it leads through. -/
def loadThrough (disk : Disk) (name : Text) : IO Disk :=
  (nameWithFolders name.length name).foldlM load disk

/-- Writes back the changes of a journal past its first `known` ones. A file is replaced in one
step. -/
def store (known : Nat) (disk : Disk) : IO Unit := do
  for change in disk.journal.drop known do
    let path := pathOf (Disk.nameOf change.place)
    match disk.at? change.place with
    | some (.file bytes) =>
      let draft := path.addExtension "tmp"
      IO.FS.writeBinFile draft ⟨bytes.toArray⟩
      IO.FS.rename draft path
    | some .folder => IO.FS.createDirAll path
    | none => pure ()

/-- Prints the events of a log on the error stream; those for debugging only if they are wanted. -/
def printLog (verbose : Bool) (log : List Event) : IO Unit := do
  for event in log do
    if verbose || event.level != .debug then
      IO.eprintln (string event.line)

/-! ## Watching -/

/-- What tells one state of a file from another. -/
abbrev Stamp := IO.FS.SystemTime × UInt64

abbrev Stamps := List (Text × Stamp)

/-- The stamps of a file, or of the files below a folder, by their names. -/
partial def stamps (name : Text) : IO Stamps := do
  let path := pathOf name
  try
    if ← path.isDir then
      let inside ← (← path.readDir).toList.mapM fun entry =>
        stamps (name ++ '/' :: entry.fileName.toList)
      return inside.flatten
    let found ← path.metadata
    return [(name, found.modified, found.byteSize)]
  catch _ => return []

/-- The stamps of all that a follower watches. -/
def watchedStamps (follower : Follower) : IO Stamps := do
  let watch := follower.watch
  let places := watch.settings.toList ++ watch.folders ++ watch.files.map (·.2)
  return (← places.mapM fun place => stamps (Disk.nameOf place)).flatten

/-- Takes in the files whose stamps are other ones, and forgets those that are gone. -/
def takeIn (old new : Stamps) (disk : Disk) : IO Disk := do
  let changed := new.filter fun (name, stamp) => old.lookup name != some stamp
  let gone := old.filter fun (name, _) => (new.lookup name).isNone
  let disk ← changed.foldlM (fun disk (name, _) => load disk name) disk
  return gone.foldl (fun disk (name, _) => disk.remove name) disk

/-- Follows saves without an end. -/
partial def follow (verbose : Bool) (quiet : Nat) (seen : Stamps) (follower : Follower) :
    IO Unit := do
  printLog verbose follower.log
  IO.print (string follower.output)
  (← IO.getStdout).flush
  IO.sleep (UInt32.ofNat quiet)
  let found ← watchedStamps follower
  let disk ← takeIn seen found follower.disk
  let next := { follower with disk, output := [], log := [] }.round .console (← IO.monoMsNow)
  store disk.journal.length next.disk
  follow verbose quiet found next

/-! ## The program -/

/-- Ends a command: writes back, prints, and gives the exit code. -/
def finish (known : Nat) (verbose : Bool) (result : Ended) : IO UInt32 := do
  printLog verbose result.log
  try
    store known result.disk
    IO.print (string result.output)
    match result.headline with
    | none => pure ()
    | some line => IO.eprintln (string line)
    return UInt32.ofNat result.code
  catch e =>
    IO.eprintln ("Error: " ++ toString e)
    return UInt32.ofNat CommandLine.failed

/-- Runs the program. -/
def run (arguments : List Text) : IO UInt32 := do
  let workingFolder := (PathName.key (← IO.currentDir).toString.toList).parts
  let (verbose, quiet, subjects) := match Arguments.read arguments with
    | .error _ => (false, 0, [])
    | .ok invocation =>
      (invocation.verbose,
        match invocation.command with
        | .watch _ quiet => quiet
        | _ => 0,
        CommandLine.subjects invocation)
  let disk ← subjects.foldlM loadThrough { workingFolder }
  match CommandLine.run disk arguments (← IO.monoMsNow) with
  | .ended result => finish disk.journal.length verbose result
  | .following follower =>
    follow verbose quiet (← watchedStamps follower) follower
    return 0

end Repath.Machine

def main (arguments : List String) : IO UInt32 :=
  Repath.Machine.run (arguments.map String.toList)

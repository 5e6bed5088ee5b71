/-
Source files as documents. A source file holds a snapshot of its text, taken when it is opened and
renewed by each commit. Edits are computed on the snapshot and written only if the file still reads
as the snapshot, so no change that somebody else made is lost.
-/
import Repath.Files.Reading
import Repath.LiveDocument

namespace Repath

structure SourceFile where
  path : Text
  language : Text
  snapshot : Text
deriving DecidableEq, Repr

namespace SourceFile

/-- A file with a snapshot that was read before; its language is that of its extension. -/
def ofText (path text : Text) : SourceFile where
  path := path
  language := PathName.language path
  snapshot := text

/-- Reads a file and takes a snapshot. -/
def open? (disk : Disk) (path : Text) : Except FileError SourceFile :=
  (disk.readSource path).map (ofText path)

/-- A line of the snapshot. -/
def line? (file : SourceFile) (n : Nat) : Option Text :=
  file.snapshot.lines[n]?

/-- What became of edits. -/
inductive EditResult where
  | written
  | missingLine (line : Nat)
  | changedOnDisk
deriving DecidableEq, Repr

/-- Applies edits to the file on disk. Nothing changes unless they are written. -/
def edit (disk : Disk) (file : SourceFile) (edits : List LineEdit) :
    Except FileError (Disk × SourceFile × EditResult) :=
  match LineEdit.applyAll edits file.snapshot with
  | .error line => .ok (disk, file, .missingLine line)
  | .ok updated =>
    match disk.readSource file.path with
    | .error e => .error e
    | .ok current =>
      if current = file.snapshot then
        match disk.replaceText file.path updated with
        | .error e => .error e
        | .ok disk => .ok (disk, { file with snapshot := updated }, .written)
      else .ok (disk, file, .changedOnDisk)

/-- What an attempt to edit reports. -/
def editEvents (file : SourceFile) (edits : List LineEdit) : EditResult → List Event
  | .written => [.editCommitted file.path edits.length]
  | .missingLine line => [.missingLine file.path line]
  | .changedOnDisk => [.changedOnDisk file.path]

/-- Source files on a disk as documents to commit to. -/
def kind : LiveDocument (Disk × SourceFile) where
  path := fun (_, file) => file.path
  text := fun (_, file) => file.snapshot
  line? := fun (_, file) => file.line?
  apply := fun edits (disk, file) =>
    match edit disk file edits with
    | .error e => ((disk, file), .raised [e.message], [])
    | .ok (disk, next, result) =>
      ((disk, next), if result = .written then .accepted else .declined,
        editEvents file edits result)

end SourceFile

end Repath

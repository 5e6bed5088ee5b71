/-
Reading files as text. A file past a size limit is refused before it is read, one with a NUL among
its first 8192 bytes counts as binary, and bytes that are no UTF-8 are either refused or replaced:
a text that may be written back is read strictly, so that what was not touched stays as it was.
-/
import Repath.Files.Disk

namespace Repath

/-- How many bytes are looked at for a NUL. -/
def binaryWindow : Nat := 8192

/-- Whether bytes count as binary. -/
def isBinary (bytes : Bytes) : Bool :=
  (bytes.take binaryWindow).contains 0

/-- The text of bytes that are not binary, malformed pieces replaced. -/
def decodeLossy (bytes : Bytes) : Except FileError Text :=
  if isBinary bytes then .error .binary else .ok (Utf8.decodeLossy bytes)

/-- The text of bytes that are not binary; the path is for the error. -/
def decodeStrict (bytes : Bytes) (path : Text) : Except FileError Text :=
  if isBinary bytes then .error .binary else
  match Utf8.decode bytes with
  | .ok text => .ok text
  | .error offset => .error (.encoding path offset)

namespace Disk

/-- The most bytes of any file that is read: eight mebibytes. -/
def maxTextBytes : Nat := 8 * 1024 * 1024

/-- The bytes of a file of limited size. -/
def readBytes (disk : Disk) (path : Text) (limit : Nat) : Except FileError Bytes :=
  match disk.entry? path with
  | none => .error (.notFound path)
  | some .folder => .error .system
  | some (.file bytes) =>
    if limit < bytes.length then .error (.tooLarge bytes.length limit) else .ok bytes

/-- A text for reading only. -/
def readText (disk : Disk) (path : Text) (limit : Nat := maxTextBytes) : Except FileError Text :=
  match disk.readBytes path limit with
  | .error e => .error e
  | .ok bytes => decodeLossy bytes

/-- A text that may be written back. -/
def readSource (disk : Disk) (path : Text) (limit : Nat := maxTextBytes) :
    Except FileError Text :=
  match disk.readBytes path limit with
  | .error e => .error e
  | .ok bytes => decodeStrict bytes path

/-- Replaces the text of a file in one step. -/
def replaceText (disk : Disk) (path text : Text) : Except FileError Disk :=
  disk.replaceFile path (Utf8.encode text)

end Disk

end Repath

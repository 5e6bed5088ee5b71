/-
A disk: files and folders below a root, a working folder among them, with a journal of what has
changed. A name leads to a place by walking its components, from the root or from the working
folder, and every component before the last has to be a folder. Replacing a file is one step: a
draft beside it takes its place. That needs the folder around it and room for the name of the
draft, and it never takes the place of a folder.
-/
import Repath.PathName
import Repath.Utf8

namespace Repath

/-- The names that lead from the root to a place; the root itself has none. -/
abbrev Place := List Text

/-- What a place has gone through. -/
inductive ChangeKind where
  /-- A file was written in place, or a file or folder was made. -/
  | written
  /-- A file came here, from another place or as a draft; what was here is gone. -/
  | arrived (origin : Option Place)
  /-- What was there has another name now. -/
  | renamed
  /-- Only the attributes have changed. -/
  | touched
  | removed
deriving DecidableEq, Repr

structure Change where
  place : Place
  kind : ChangeKind
deriving DecidableEq, Repr

/-- Why a file could not be read or written. -/
inductive FileError where
  | notFound (path : Text)
  | tooLarge (size limit : Nat)
  | binary
  | encoding (path : Text) (offset : Nat)
  | system
deriving DecidableEq, Repr

def FileError.message : FileError → Text
  | .notFound path => "File not found: ".toList ++ path
  | .tooLarge size limit =>
    "File too large: ".toList ++ Text.ofNat size ++ " bytes (limit: ".toList ++
      Text.ofNat limit ++ [')']
  | .binary => "Binary file detected".toList
  | .encoding path offset =>
    "Invalid UTF-8 in ".toList ++ path ++ " at byte ".toList ++ Text.ofNat offset
  | .system => "IO error".toList

structure Disk where
  /-- The folder that relative names start from. -/
  workingFolder : Place := []
  files : List (Place × Bytes) := []
  /-- The folders other than the working folder and those around it. -/
  folders : List Place := []
  /-- The changes so far, first one first. -/
  journal : List Change := []
deriving DecidableEq, Repr

/-- What is found at a place. -/
inductive Entry where
  | file (bytes : Bytes)
  | folder
deriving DecidableEq, Repr

namespace Disk

def isFolder (disk : Disk) (place : Place) : Bool :=
  place.isPrefixOf disk.workingFolder || disk.folders.contains place

/-- What is at a place, if anything. -/
def at? (disk : Disk) (place : Place) : Option Entry :=
  if disk.isFolder place then some .folder
  else (disk.files.lookup place).map .file

/-! ## From names to places -/

/-- The most bytes of a component. -/
def maxComponentSize : Nat := 255

/-- The most bytes of a whole name. -/
def maxNameSize : Nat := 4095

/-- Whether a component is short enough. -/
def fits (component : Text) : Bool :=
  Utf8.size component ≤ maxComponentSize

/-- Whether a name may be looked up at all: it holds no NUL and is short enough. -/
def admits (path : Text) : Bool :=
  !path.contains '\x00' && Utf8.size path ≤ maxNameSize

/-- The folder that a name starts from. -/
def origin (disk : Disk) (path : Text) : Place :=
  if PathName.isAbsolute path then [] else disk.workingFolder

/-- Walks components from a folder. The last one may be missing; the root is above itself. -/
def walk (disk : Disk) : Place → List Text → Option Place
  | place, [] => some place
  | place, name :: rest =>
    if name = PathName.here then walk disk place rest
    else if name = PathName.above then walk disk place.dropLast rest
    else if !fits name then none
    else
      let next := place ++ [name]
      if rest.isEmpty || disk.isFolder next then walk disk next rest else none

/-- The place a name leads to, whether or not something is there. -/
def place? (disk : Disk) (path : Text) : Option Place :=
  if path.isEmpty || !admits path then none else
  match disk.walk (disk.origin path) (PathName.key path).parts with
  | none => none
  | some place =>
    if PathName.isFolderName path && !disk.isFolder place then none else some place

/-- What a name leads to, if anything. -/
def entry? (disk : Disk) (path : Text) : Option Entry :=
  (disk.place? path).bind disk.at?

/-- The absolute name of a place. -/
def nameOf (place : Place) : Text :=
  if place.isEmpty then ['/'] else place.flatMap ('/' :: ·)

/-! ## Changes -/

def note (disk : Disk) (place : Place) (kind : ChangeKind) : Disk :=
  { disk with journal := disk.journal ++ [⟨place, kind⟩] }

/-- Puts a file at a place, over one that is there. -/
def putFile (disk : Disk) (place : Place) (bytes : Bytes) (kind : ChangeKind) : Disk :=
  { disk with files := (place, bytes) :: disk.files.filter fun file => file.1 != place }.note
    place kind

/-- Makes a folder at a place where none is. -/
def putFolder (disk : Disk) (place : Place) : Disk :=
  if disk.isFolder place then disk
  else { disk with folders := place :: disk.folders }.note place .written

/-- Makes the folders that a list of components leads through, as far as they are missing. A file
in the way is an error; the folders made before it stay. -/
def makeFoldersFrom (disk : Disk) : Place → List Text → Disk × Except FileError Unit
  | _, [] => (disk, .ok ())
  | place, name :: rest =>
    if name = PathName.here then makeFoldersFrom disk place rest
    else if name = PathName.above then makeFoldersFrom disk place.dropLast rest
    else if !fits name then (disk, .error .system)
    else
      let next := place ++ [name]
      match disk.at? next with
      | some (.file _) => (disk, .error .system)
      | _ => makeFoldersFrom (disk.putFolder next) next rest

/-- Makes the folder of a name and those around it; gives the disk afterwards. -/
def makeFolders (disk : Disk) (path : Text) : Disk × Except FileError Unit :=
  if admits path then disk.makeFoldersFrom (disk.origin path) (PathName.key path).parts
  else (disk, .error .system)

/-- The place of a file that a name may create or replace: the name of something inside a folder
that is there, and not itself that of a folder. -/
def target? (disk : Disk) (path : Text) : Option Place :=
  match PathName.fileName? path, disk.place? path with
  | some _, some place =>
    if PathName.isFolderName path || disk.isFolder place then none else some place
  | _, _ => none

/-- The bytes of the name of a draft. -/
def draftSize : Nat := 10

/-- Whether a draft can lie beside a file: its name is spelled from the root. -/
def draftFits (disk : Disk) (path : Text) : Bool :=
  let folder := match PathName.parent? path with
    | none => PathName.here
    | some folder => if folder.isEmpty then PathName.here else folder
  let full := if PathName.isAbsolute folder then folder
    else PathName.inside (nameOf disk.workingFolder) folder
  Utf8.size (PathName.inside full []) + draftSize ≤ maxNameSize

/-- Replaces the content of a file, or makes the file, in one step. -/
def replaceFile (disk : Disk) (path : Text) (bytes : Bytes) : Except FileError Disk :=
  match disk.target? path with
  | none => .error .system
  | some place =>
    if disk.draftFits path then .ok (disk.putFile place bytes (.arrived none))
    else .error .system

/-! ## What others do to the disk -/

/-- Writes a file and makes the folders it needs. -/
def write (disk : Disk) (path : Text) (bytes : Bytes) : Disk :=
  let ready := match PathName.parent? path with
    | none => disk
    | some folder => (disk.makeFolders folder).1
  match ready.target? path with
  | none => ready
  | some place => ready.putFile place bytes .written

/-- The disk without a place and all that is in it. -/
def without (disk : Disk) (place : Place) : Disk :=
  { disk with
    files := disk.files.filter fun file => !place.isPrefixOf file.1
    folders := disk.folders.filter fun folder => !place.isPrefixOf folder }

/-- Removes a file, or a folder with all that is in it. -/
def remove (disk : Disk) (path : Text) : Disk :=
  match disk.place? path with
  | none => disk
  | some place => (disk.without place).note place .removed

/-- Moves a file to another name, over a file that has it. -/
def rename (disk : Disk) (path newPath : Text) : Disk :=
  match disk.place? path, disk.target? newPath with
  | some place, some newPlace =>
    match disk.at? place with
    | some (.file bytes) =>
      if place = newPlace then disk
      else ((disk.without place).note place .renamed).putFile newPlace bytes (.arrived place)
    | _ => disk
  | _, _ => disk

/-- Changes the attributes of a file but not its content. -/
def touch (disk : Disk) (path : Text) : Disk :=
  match disk.place? path with
  | none => disk
  | some place => disk.note place .touched

/-- The names of the files below the working folder, from there and in their order. -/
def fileNames (disk : Disk) : List Text :=
  let inside := disk.files.filter fun file => disk.workingFolder.isPrefixOf file.1
  (inside.map fun file => ['/'].intercalate (file.1.drop disk.workingFolder.length)).mergeSort
    fun a b => !b.lex a

end Disk

end Repath

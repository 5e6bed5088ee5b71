/-
Names of paths. Two names are of the same path if they agree in their components: slashes that
repeat or end a name do not count, and neither does a point, except where it starts a relative
name; two points stay as they are. The extension is that of the last component.
-/
import Repath.Text

namespace Repath

/-- What a name says: whether it starts at the root, and its components. -/
structure PathKey where
  absolute : Bool
  parts : List Text
deriving DecidableEq, Repr

namespace PathName

/-- The component for the folder itself. -/
def here : Text := ['.']

/-- The component for the folder above. -/
def above : Text := ['.', '.']

def isAbsolute (path : Text) : Bool :=
  path.head? == some '/'

/-- The pieces between slashes, the root apart. -/
def pieces (path : Text) : List Text :=
  if isAbsolute path then (path.drop 1).splitOn '/' else path.splitOn '/'

/-- Whether a piece counts as a component at its place; a point counts only as the first piece of
a relative name. -/
def counts (atStart : Bool) (piece : Text) : Bool :=
  !piece.isEmpty && (atStart || piece != here)

/-- The components of the pieces of a name. -/
def components (relative : Bool) : List Text → List Text
  | [] => []
  | first :: rest =>
    (if counts relative first then [first] else []) ++ rest.filter (counts false)

/-- What a name says. -/
def key (path : Text) : PathKey where
  absolute := isAbsolute path
  parts := components (!isAbsolute path) (pieces path)

/-- The last component, if it is a name of its own and not a point or two. -/
def fileName? (path : Text) : Option Text :=
  match (key path).parts.getLast? with
  | none => none
  | some name => if name = here || name = above then none else some name

/-- What follows the last point of the file name, if something stands before that point. -/
def extension? (path : Text) : Option Text :=
  match fileName? path with
  | none => none
  | some name =>
    let ending := (name.reverse.takeWhile (· != '.')).reverse
    if name.length ≤ ending.length + 1 then none else some ending

/-- The language of a path, by its extension. -/
def language (path : Text) : Text :=
  match extension? path with
  | none => "plaintext".toList
  | some ending =>
    if ending = "go".toList then "go".toList
    else if ending = "mod".toList then "go.mod".toList
    else if ending = "json".toList then "json".toList
    else "plaintext".toList

/-- The language whose import lines are known. -/
def goLanguage : Text := "go".toList

/-- Drops the pieces at the end that are no components; the pieces are last first. -/
def dropIdle (relative : Bool) : List Text → List Text
  | [] => []
  | piece :: rest =>
    if counts (relative && rest.isEmpty) piece then piece :: rest else dropIdle relative rest

/-- The name of the folder that holds the last component, spelled as in the path; a name of one
component gives the empty name, one without components nothing. -/
def parent? (path : Text) : Option Text :=
  let relative := !isAbsolute path
  match dropIdle relative (pieces path).reverse with
  | [] => none
  | _ :: rest =>
    let folder := ['/'].intercalate (dropIdle relative rest).reverse
    some (if relative then folder else '/' :: folder)

/-- The name of something inside a folder. -/
def inside (folder name : Text) : Text :=
  if folder.getLast? == some '/' then folder ++ name else folder ++ '/' :: name

/-- Whether a name can only be that of a folder: it ends with a slash or with a point. -/
def isFolderName (path : Text) : Bool :=
  match (path.splitOn '/').reverse with
  | [] => false
  | [_] => false
  | last :: _ => last.isEmpty || last == here

end PathName

end Repath

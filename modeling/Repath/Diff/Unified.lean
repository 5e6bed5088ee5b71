/-
The printed difference of two texts. Neighbouring changes form one block, printed with the removed
lines first; blocks that are close share a group, with up to three kept lines around its changes,
and groups are set apart by a line of dots.
-/
import Repath.Diff.Snake
import Repath.Diff.Compaction

namespace Repath.Diff

/-- Kept lines, or a change that takes lines away and puts lines in. -/
inductive Block where
  | same (lines : List Text)
  | change (gone added : List Text)
deriving DecidableEq, Repr

/-- Puts an operation in front of blocks, as part of the first one if that is of its kind. -/
def Block.merge : Op → List Block → List Block
  | .keep ls, .same ms :: rest => .same (ls ++ ms) :: rest
  | .keep ls, rest => .same ls :: rest
  | .drop ls, .change gone added :: rest => .change (ls ++ gone) added :: rest
  | .drop ls, rest => .change ls [] :: rest
  | .add ls, .change gone added :: rest => .change gone (ls ++ added) :: rest
  | .add ls, rest => .change [] ls :: rest

/-- The blocks of a script. -/
def blocks (script : Script) : List Block :=
  script.foldr Block.merge []

/-- The number of kept lines shown on each side of a change. -/
def context : Nat := 3

/-- The last lines of a list, as many as are shown. -/
def lastLines (ls : List Text) : List Text :=
  ls.drop (ls.length - context)

/-- Of kept lines in front of all changes only the last ones are shown. -/
def trimFirst : List Block → List Block
  | .same ls :: rest => .same (lastLines ls) :: rest
  | bs => bs

/-- Of kept lines behind all changes only the first ones are shown. -/
def trimLast : List Block → List Block
  | [] => []
  | [.same ls] => [.same (ls.take context)]
  | b :: rest => b :: trimLast rest

/-- Groups of blocks; kept lines too long to be shown whole end one group and start the next.
`group` is the current group, last block first. -/
def groupsFrom : List Block → List Block → List (List Block)
  | [], [] => []
  | [.same _], [] => []
  | group, [] => [group.reverse]
  | group, .same ls :: rest =>
    if 2 * context < ls.length then
      (.same (ls.take context) :: group).reverse :: groupsFrom [.same (lastLines ls)] rest
    else groupsFrom (.same ls :: group) rest
  | group, b :: rest => groupsFrom (b :: group) rest

/-- The groups of blocks that are shown. -/
def groups (bs : List Block) : List (List Block) :=
  groupsFrom [] (trimLast (trimFirst bs))

/-- A line with its sign; a line without terminator gets a line feed. -/
def signedLine (sign : Char) (line : Text) : Text :=
  let ended := match line.getLast? with
    | some c => c == '\n' || c == '\r'
    | none => false
  sign :: (if ended then line else line ++ ['\n'])

/-- The printed lines of a block. -/
def Block.text : Block → Text
  | .same ls => ls.flatMap (signedLine ' ')
  | .change gone added => gone.flatMap (signedLine '-') ++ added.flatMap (signedLine '+')

/-- The line between groups. -/
def separator : Text := ['.', '.', '.', '\n']

/-- The difference of two texts: the groups of a shortest script whose changes are moved
together. -/
def unified (old new : Text) : Text :=
  let script := compact (shortestScript (lines old) (lines new))
  separator.intercalate ((groups (blocks script)).map fun group => group.flatMap Block.text)

end Repath.Diff

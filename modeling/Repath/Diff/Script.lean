/-
Edit scripts between two lists of lines. A script is a list of operations; what it keeps and drops
is the old side, what it keeps and adds the new one. Lines are cut after `\r\n`, `\n` or a lone
`\r`, which stays part of the line.
-/
import Repath.Text

namespace Repath.Diff

/-- The lines of a text for comparison, each with its terminator; `line` is the current one and
`done` the finished ones, both last first. -/
def linesFrom : Text → Text → List Text → List Text
  | [], [], done => done.reverse
  | [], line, done => (line.reverse :: done).reverse
  | '\r' :: '\n' :: rest, line, done => linesFrom rest [] (('\n' :: '\r' :: line).reverse :: done)
  | c :: rest, line, done =>
    if c = '\n' || c = '\r' then linesFrom rest [] ((c :: line).reverse :: done)
    else linesFrom rest (c :: line) done

def lines (t : Text) : List Text :=
  linesFrom t [] []

/-- One operation on neighbouring lines. -/
inductive Op where
  | keep (lines : List Text)
  | drop (lines : List Text)
  | add (lines : List Text)
deriving DecidableEq, Repr

namespace Op

/-- The lines of the old side. -/
def old : Op → List Text
  | keep ls => ls
  | drop ls => ls
  | add _ => []

/-- The lines of the new side. -/
def new : Op → List Text
  | keep ls => ls
  | drop _ => []
  | add ls => ls

/-- The operation and its lines, counted. -/
def weight : Op → Nat
  | keep ls => ls.length + 1
  | drop ls => ls.length + 1
  | add ls => ls.length + 1

end Op

abbrev Script := List Op

namespace Script

/-- The list of lines that a script starts from. -/
def old (script : Script) : List Text :=
  script.flatMap Op.old

/-- The list of lines that a script arrives at. -/
def new (script : Script) : List Text :=
  script.flatMap Op.new

def weight (script : Script) : Nat :=
  script.foldr (fun op total => op.weight + total) 0

end Script

/-- The number of lines two lists share at their start. -/
def sharedStart (a b : List Text) : Nat :=
  ((List.zipWith (fun x y => x == y) a b).takeWhile id).length

/-- The number of lines two lists share at their end. -/
def sharedEnd (a b : List Text) : Nat :=
  sharedStart a.reverse b.reverse

theorem sharedStart_le_left (a b : List Text) : sharedStart a b ≤ a.length := by
  unfold sharedStart
  have := (List.takeWhile_sublist (l := List.zipWith (fun x y => x == y) a b) id).length_le
  rw [List.length_zipWith] at this
  omega

theorem sharedEnd_le_left (a b : List Text) : sharedEnd a b ≤ a.length := by
  unfold sharedEnd
  have := sharedStart_le_left a.reverse b.reverse
  rwa [List.length_reverse] at this

end Repath.Diff

/-
Line edits. A pass is collapsed into one edit for each line with a record, in the order of the
lines: the records of a line are in the order of its chain and each holds the line as the rules so
far leave it, so the last one wins. For a reader the same lines are collected a second time, with
the text before the first record beside the text after the last.
-/
import Repath.Pass

namespace Repath

/-- The new content of one whole line, without its line feed. -/
structure LineEdit where
  line : Nat
  text : Text
deriving DecidableEq, Repr

/-- What a pass makes of one line: its text before the first record of the line and after the
last. -/
structure LineChange where
  line : Nat
  before : Text
  after : Text
deriving DecidableEq, Repr

namespace LineEdit

/-- Sets the text of a line; a text that the line has already gives way. -/
def put (line : Nat) (text : Text) : List LineEdit → List LineEdit
  | [] => [⟨line, text⟩]
  | edit :: rest =>
    if line < edit.line then ⟨line, text⟩ :: edit :: rest
    else if line = edit.line then ⟨line, text⟩ :: rest
    else edit :: put line text rest

end LineEdit

namespace LineChange

/-- Takes in the next record: the first one of a line opens its change, and a later one moves on
the text after. -/
def add (r : Replacement) : List LineChange → List LineChange
  | [] => [⟨r.line, r.before, r.after⟩]
  | change :: rest =>
    if r.line < change.line then ⟨r.line, r.before, r.after⟩ :: change :: rest
    else if r.line = change.line then { change with after := r.after } :: rest
    else change :: add r rest

end LineChange

namespace Pass

/-- One edit for each line with a record, in the order of the lines. -/
def edits (pass : Pass) : List LineEdit :=
  pass.replacements.foldl (fun edits r => LineEdit.put r.line r.after edits) []

/-- What a pass makes of the lines with a record, in the order of the lines. -/
def lineChanges (pass : Pass) : List LineChange :=
  pass.replacements.foldl (fun changes r => LineChange.add r changes) []

end Pass

namespace LineEdit

/-- Applies edits to lines one after the other; the first that addresses a missing line stops and
gives the number of that line. -/
def applyToLines : List LineEdit → Array Text → Except Nat (Array Text)
  | [], lines => .ok lines
  | edit :: rest, lines =>
    if edit.line < lines.size then applyToLines rest (lines.setIfInBounds edit.line edit.text)
    else .error edit.line

/-- Applies edits to a text. -/
def applyAll (edits : List LineEdit) (text : Text) : Except Nat Text :=
  (applyToLines edits text.lines.toArray).map fun lines => Text.joinLines lines.toList

end LineEdit

end Repath

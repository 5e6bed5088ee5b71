/-
Replacing a literal source in a text. A text is cut at the leftmost occurrences of the source that
do not overlap; the pieces glued with the source are the text again, and glued with another text
they are the replacement. So one list of pieces answers whether the source occurs, where it occurs
first, and what the text becomes.
-/
import Repath.Text

namespace Repath.Text

/-- Cuts with `skip` scalars of the current occurrence still to pass, `piece` the current piece and
`done` the finished ones, both last first. -/
def cutsFrom (source : Text) : Nat → Text → Text → List Text → List Text
  | _, [], piece, done => (piece.reverse :: done).reverse
  | skip + 1, _ :: rest, piece, done => cutsFrom source skip rest piece done
  | 0, c :: rest, piece, done =>
    if source.isPrefixOf (c :: rest) then
      cutsFrom source (source.length - 1) rest [] (piece.reverse :: done)
    else
      cutsFrom source 0 rest (c :: piece) done

/-- The pieces of a text between the leftmost occurrences of a nonempty source that do not
overlap. -/
def cuts (t source : Text) : List Text :=
  cutsFrom source 0 t [] []

/-- Every occurrence of the source, leftmost first and without overlap, gives way to the target. -/
def replace (t source target : Text) : Text :=
  target.intercalate (cuts t source)

end Repath.Text

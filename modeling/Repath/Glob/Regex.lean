/-
Texts of regular expressions.
-/
import Repath.Text

namespace Repath.Glob

/-- The characters that a regular expression takes as itself only after a backslash. -/
def metacharacters : Text :=
  "\\.+*?()|[]\x7b\x7d^$#&-~".toList

/-- The expression for a character itself. -/
def escaped (c : Char) : Text :=
  if metacharacters.contains c then ['\\', c] else [c]

end Repath.Glob

/-
Texts as lists of Unicode scalars, with the blank characters, trimming, and cutting into lines.
A line is a segment between line feeds, so the lines joined by line feeds are the text again
(`joinLines_lines`), and a text without a line feed is its own only line.
-/

namespace Repath

/-- A text is the sequence of its Unicode scalars. -/
abbrev Text := List Char

/-- The characters of the property White_Space, in the order of their code points. -/
def isBlankChar (c : Char) : Bool :=
  let n := c.toNat
  (0x09 ≤ n && n ≤ 0x0D) || n == 0x20 || n == 0x85 || n == 0xA0 || n == 0x1680 ||
    (0x2000 ≤ n && n ≤ 0x200A) || n == 0x2028 || n == 0x2029 || n == 0x202F || n == 0x205F ||
    n == 0x3000

namespace Text

/-- A text is blank if it holds nothing but White_Space; the empty text is blank. -/
def isBlank (t : Text) : Bool :=
  t.all isBlankChar

/-- The text without the White_Space at its start. -/
def trimStart (t : Text) : Text :=
  t.dropWhile isBlankChar

/-- The text without the White_Space at its end. -/
def trimEnd (t : Text) : Text :=
  (t.reverse.dropWhile isBlankChar).reverse

/-- The text without the White_Space at both of its ends. -/
def trim (t : Text) : Text :=
  trimEnd (trimStart t)

/-- The segments between the line feeds; the empty text is one empty line. -/
def lines (t : Text) : List Text :=
  t.splitOn '\n'

/-- The lines with a line feed between neighbours. -/
def joinLines (ls : List Text) : Text :=
  ['\n'].intercalate ls

/-- The text up to its first line feed. A carriage return there belongs to the end of the line. -/
def firstLine (t : Text) : Text :=
  let line := t.takeWhile (· != '\n')
  if line.getLast? = some '\r' then line.dropLast else line

/-- The decimal digits of a number. -/
def ofNat (n : Nat) : Text :=
  n.repr.toList

/-- The number of the line behind `line` others, for a reader: counted from one, and in 64 bits. -/
def lineNumber (line : Nat) : Nat :=
  (line + 1) % UInt64.size

/-- The texts joined, with a colon and a space between neighbours. -/
def chain (ts : List Text) : Text :=
  [':', ' '].intercalate ts

/-- Whether `part` occurs in the text at any place. -/
def occurs (part : Text) : Text → Bool
  | [] => part.isEmpty
  | c :: r => part.isPrefixOf (c :: r) || occurs part r

@[simp] theorem joinLines_lines (t : Text) : joinLines (lines t) = t :=
  List.intercalate_splitOn '\n'

/-- Lines that hold no line feed come back from the text they make. -/
theorem lines_joinLines {ls : List Text} (h : ∀ l ∈ ls, '\n' ∉ l) (hne : ls ≠ []) :
    lines (joinLines ls) = ls :=
  List.splitOn_intercalate '\n' h hne

theorem lines_ne_nil (t : Text) : lines t ≠ [] :=
  List.splitOn_ne_nil '\n' t

end Text

end Repath

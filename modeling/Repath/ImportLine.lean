/-
Which lines look like part of an import statement: those with the word `import` between
delimiters, and those that are one quoted text with an optional comment after it. The test reads
one line at a time, so a quoted text inside a call of several lines passes too.
-/
import Repath.Text

namespace Repath.ImportLine

/-- The characters that may stand beside the word: a space or a quote. A tab is none of them. -/
def isDelimiter (c : Char) : Bool :=
  c == ' ' || c == '"' || c == '\''

/-- The word that starts an import statement. -/
def word : Text := ['i', 'm', 'p', 'o', 'r', 't']

/-- Whether the text starts with the word and a delimiter. -/
def startsWithWord (t : Text) : Bool :=
  word.isPrefixOf t && (t.drop word.length).head?.any isDelimiter

/-- Whether the word with a delimiter after it stands somewhere: at the start, if that counts
as open, or after a delimiter. -/
def hasWord (isOpen : Bool) : Text → Bool
  | [] => false
  | c :: rest => (isOpen && startsWithWord (c :: rest)) || hasWord (isDelimiter c) rest

/-- Nothing, or a line comment that ends with the text. -/
def isComment : Text → Bool
  | [] => true
  | '/' :: '/' :: rest => !rest.contains '\n'
  | _ => false

/-- Whether a quoted text fills the whole text, with nothing after it but blanks and a comment. -/
def isQuoted : Text → Bool
  | [] => false
  | quote :: rest =>
    if quote = '"' || quote = '\'' then
      match rest.dropWhile (· != quote) with
      | [] => false
      | _ :: rest => isComment (rest.dropWhile isBlankChar)
    else false

/-- Whether a line looks like part of an import statement. -/
def accepts (line : Text) : Bool :=
  let t := line.trim
  !t.isEmpty && (hasWord true t || isQuoted t)

end Repath.ImportLine

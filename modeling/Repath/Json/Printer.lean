/-
The two written forms of a JSON value: the compact one without any space, and the pretty one with
an indent of two spaces a level, a space after a colon, and empty containers on one line. Both
write the fields of an object in the order they have.
-/
import Repath.Json
import Repath.Double.Shortest

namespace Repath.Json

/-- A hexadecimal digit in lower case. -/
def hexDigit (n : Nat) : Char :=
  Nat.digitChar n

/-- A character inside quotes. Only the quote, the backslash and the control characters below the
space are escaped, those with a letter of their own by that letter. -/
def escapeChar (c : Char) : Text :=
  if c = '"' then ['\\', '"']
  else if c = '\\' then ['\\', '\\']
  else if c = '\n' then ['\\', 'n']
  else if c = '\r' then ['\\', 'r']
  else if c = '\t' then ['\\', 't']
  else if c.toNat = 0x08 then ['\\', 'b']
  else if c.toNat = 0x0C then ['\\', 'f']
  else if c.toNat < 0x20 then
    ['\\', 'u', '0', '0', hexDigit (c.toNat / 16), hexDigit (c.toNat % 16)]
  else [c]

/-- A text in quotes. -/
def quote (t : Text) : Text :=
  '"' :: (t.flatMap escapeChar ++ ['"'])

/-- A number as it is written. -/
def numberText : Number → Text
  | .whole (.ofNat n) => Text.ofNat n
  | .whole (.negSucc n) => '-' :: Text.ofNat (n + 1)
  | .double d => d.text

/-- The written forms of `null`, `true` and `false`. -/
def nullText : Text := ['n', 'u', 'l', 'l']

def boolText : Bool → Text
  | true => ['t', 'r', 'u', 'e']
  | false => ['f', 'a', 'l', 's', 'e']

mutual

/-- The form without any space. -/
def compact : Json → Text
  | null => nullText
  | bool b => boolText b
  | number n => numberText n
  | string s => quote s
  | array items => '[' :: ([','].intercalate (compactItems items) ++ [']'])
  | object fields => '{' :: ([','].intercalate (compactFields fields) ++ ['}'])
termination_by structural j => j

def compactItems : List Json → List Text
  | [] => []
  | j :: rest => j.compact :: compactItems rest
termination_by structural items => items

def compactFields : List (Text × Json) → List Text
  | [] => []
  | (k, v) :: rest => (quote k ++ ':' :: v.compact) :: compactFields rest
termination_by structural fields => fields

end

/-- A line break with the indent of a level. -/
def newline (level : Nat) : Text :=
  '\n' :: List.replicate (2 * level) ' '

/-- A container of written items, each on a line of its own one level deeper. -/
def block (opening closing : Char) (level : Nat) : List Text → Text
  | [] => [opening, closing]
  | items =>
    opening :: (newline (level + 1) ++
      ((',' :: newline (level + 1)).intercalate items ++ (newline level ++ [closing])))

mutual

/-- The form on several lines, inside a container of the given level. -/
def prettyAt (level : Nat) : Json → Text
  | null => nullText
  | bool b => boolText b
  | number n => numberText n
  | string s => quote s
  | array items => block '[' ']' level (prettyItems (level + 1) items)
  | object fields => block '{' '}' level (prettyFields (level + 1) fields)
termination_by structural j => j

def prettyItems (level : Nat) : List Json → List Text
  | [] => []
  | j :: rest => j.prettyAt level :: prettyItems level rest
termination_by structural items => items

def prettyFields (level : Nat) : List (Text × Json) → List Text
  | [] => []
  | (k, v) :: rest => (quote k ++ ':' :: ' ' :: v.prettyAt level) :: prettyFields level rest
termination_by structural fields => fields

end

/-- The form on several lines. -/
def pretty (j : Json) : Text :=
  j.prettyAt 0

end Repath.Json

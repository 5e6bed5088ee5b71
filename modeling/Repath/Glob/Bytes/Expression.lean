/-
The regular expressions of globs for watched paths. Globs that are used together are compiled
together: the text of an expression may nest 250 levels deep, and its matcher may take ten
mebibytes, as may the matcher of all expressions that are tried on every path. If one of the globs
is past that, none of them is used.
-/
import Repath.Glob.Bytes.Matching
import Repath.Glob.Matcher
import Repath.Glob.Regex

namespace Repath.Glob

/-! ## Texts -/

/-- The expression of one byte. -/
def byteRegex (b : UInt8) : Text :=
  if b < 0x80 then escaped (Char.ofNat b.toNat)
  else ['\\', 'x', Nat.digitChar (b.toNat / 16), Nat.digitChar (b.toNat % 16)]

/-- The expression of a range of bytes in a class. -/
def rangeRegex : UInt8 × UInt8 → Text
  | (low, high) => if low = high then byteRegex low else byteRegex low ++ '-' :: byteRegex high

mutual

/-- The expression of a token; a point in it matches any byte. -/
def ByteToken.regex : ByteToken → Text
  | .literal bytes => bytes.flatMap byteRegex
  | .any => ['.']
  | .star => ".*".toList
  | .leading => "(?:/?|.*/)".toList
  | .trailing => "/.*".toList
  | .inner => "(?:/|/.*/)".toList
  | .oneOf negated ranges =>
    '[' :: (if negated then ['^'] else []) ++ ranges.flatMap rangeRegex ++ [']']
  | .branches parts =>
    match (partRegexes parts).filter (!·.isEmpty) with
    | [] => []
    | regexes => "(?:".toList ++ ['|'].intercalate regexes ++ [')']
termination_by structural token => token

/-- The expression of tokens one after the other. -/
def regexAll : List ByteToken → Text
  | [] => []
  | token :: rest => token.regex ++ regexAll rest
termination_by structural tokens => tokens

/-- The expressions of the branches between two braces. -/
def partRegexes : List (List ByteToken) → List Text
  | [] => []
  | part :: rest => regexAll part :: partRegexes rest
termination_by structural parts => parts

end

/-- The anchored expression of a glob. -/
def ByteGlob.regex (glob : ByteGlob) : Text :=
  "(?-u)^".toList ++ (match glob.tokens with
    | [.leading] => ".*".toList
    | tokens => regexAll tokens) ++ ['$']

/-! ## Their form -/

/-- Any bytes. -/
def anyBytes : Expression := .star .anyByte

/-- A slash. -/
def oneSlash : Expression := .literal [slash]

/-- A class, or all bytes outside it. -/
def classExpression (negated : Bool) (ranges : List (UInt8 × UInt8)) : Expression :=
  let ranges := Ranges.canonical (ranges.map fun (low, high) => (low.toNat, high.toNat))
  .oneByte (if negated then Ranges.gaps 0xFF 0 ranges else ranges)

/-- Branches; empty ones do not count. -/
def branchesExpression (parts : List Expression) : Expression :=
  match parts.filter (!·.isEmpty) with
  | [] => .empty
  | parts => .either parts

mutual

/-- The expression of a token in the form in which it is compiled. -/
def ByteToken.expression : ByteToken → Expression
  | .literal bytes => .literal bytes
  | .any => .anyByte
  | .star => anyBytes
  | .leading => .either [.optional oneSlash, .inOrder [anyBytes, oneSlash]]
  | .trailing => .inOrder [oneSlash, anyBytes]
  | .inner => .either [oneSlash, .inOrder [oneSlash, anyBytes, oneSlash]]
  | .oneOf negated ranges => classExpression negated ranges
  | .branches parts => branchesExpression (expressionsBeside parts [])
termination_by structural token => token

/-- The expressions of tokens behind others, last first. -/
def expressionsBehind : List ByteToken → List Expression → List Expression
  | [], done => done
  | token :: rest, done => expressionsBehind rest (token.expression :: done)
termination_by structural tokens => tokens

/-- The expressions of branches behind others. -/
def expressionsBeside : List (List ByteToken) → List Expression → List Expression
  | [], done => done.reverse
  | part :: rest, done =>
    expressionsBeside rest (.inOrder (expressionsBehind part []).reverse :: done)
termination_by structural parts => parts

end

/-- The anchored expression of a glob in the form in which it is compiled. -/
def ByteGlob.expression (glob : ByteGlob) : Expression :=
  .inOrder (.edge :: ((match glob.tokens with
    | [.leading] => [anyBytes]
    | tokens => (expressionsBehind tokens []).reverse) ++ [.edge]))

/-! ## How deep their texts nest -/

/-- The form of a piece of an expression's text: the number of its items, and the depth to which
they nest. -/
structure Nesting where
  items : Nat := 0
  depth : Nat := 0
deriving DecidableEq, Repr

namespace Nesting

/-- One piece after another. -/
def append (first second : Nesting) : Nesting where
  items := first.items + second.items
  depth := max first.depth second.depth

/-- The depth of a piece as one item: several items in a row nest one level deeper. -/
def depthAsItem (piece : Nesting) : Nat :=
  if piece.items = 1 then piece.depth else piece.depth + 1

/-- A piece beside others, each of which counts as one item; an empty one does not count. -/
def beside (piece others : Nesting) : Nesting :=
  if piece.items = 0 then others
  else { items := others.items + 1, depth := max piece.depthAsItem others.depth }

/-- A group of branches that lie beside each other. -/
def grouped (branches : Nesting) : Nesting :=
  match branches.items with
  | 0 => {}
  | 1 => { branches with depth := branches.depth + 1 }
  | _ => { items := 1, depth := branches.depth + 2 }

end Nesting

mutual

/-- The form of a token's expression. -/
def ByteToken.nesting : ByteToken → Nesting
  | .literal bytes => ⟨bytes.length, 0⟩
  | .any => ⟨1, 0⟩
  | .star => ⟨1, 1⟩
  | .leading => ⟨1, 4⟩
  | .trailing => ⟨2, 1⟩
  | .inner => ⟨1, 4⟩
  | .oneOf _ ranges => ⟨1, if ranges.length = 1 then 1 else 2⟩
  | .branches parts => (nestingBeside parts {}).grouped
termination_by structural token => token

/-- The form of tokens behind a piece. -/
def nestingBehind : List ByteToken → Nesting → Nesting
  | [], piece => piece
  | token :: rest, piece => nestingBehind rest (piece.append token.nesting)
termination_by structural tokens => tokens

/-- The form of branches beside others. -/
def nestingBeside : List (List ByteToken) → Nesting → Nesting
  | [], others => others
  | part :: rest, others => nestingBeside rest ((nestingBehind part {}).beside others)
termination_by structural parts => parts

end

/-- How deep the expression of a glob nests; its tokens stand in a row with both ends of the
text. -/
def ByteGlob.depth (glob : ByteGlob) : Nat :=
  (nestingBehind glob.tokens {}).depth + 1

/-! ## Compiling -/

/-- The greatest depth of an expression. -/
def nestLimit : Nat := 250

/-- The most bytes of a matcher. -/
def matcherLimit : Nat := 10 * 1024 * 1024

/-- Why expressions are not compiled together. -/
inductive CompileFault where
  | tooDeep
  | tooBig
deriving DecidableEq, Repr

def CompileFault.message : CompileFault → Text
  | tooDeep => "error parsing pattern 0".toList
  | tooBig => "error building NFA".toList

/-- What keeps globs from being compiled together. -/
def compileFault? (globs : List ByteGlob) : Option CompileFault :=
  if globs.any fun glob => nestLimit < glob.depth then some .tooDeep
  else if (Expression.compiledSize (globs.map ByteGlob.expression)).fits matcherLimit then none
  else some .tooBig

/-- Why globs are not used together; an expression that is compiled by itself is named. -/
structure GlobsFault where
  expression : Option Text
  cause : CompileFault
deriving DecidableEq, Repr

def GlobsFault.message (fault : GlobsFault) : Text :=
  (match fault.expression with
    | none => []
    | some regex => "error parsing glob '".toList ++ regex ++ "': ".toList) ++ fault.cause.message

/-- What keeps globs from being used together. An expression that is tried for one extension is
compiled by itself, and those that are tried on every path are compiled together. -/
def globsFault? (globs : List ByteGlob) : Option GlobsFault :=
  let single := (globs.filter (·.lookup = .byExtension)).findSome? fun glob =>
    (compileFault? [glob]).map fun cause => ⟨some glob.regex, cause⟩
  match single with
  | some fault => some fault
  | none =>
    (compileFault? (globs.filter (·.lookup = .byExpression))).map fun cause => ⟨none, cause⟩

end Repath.Glob

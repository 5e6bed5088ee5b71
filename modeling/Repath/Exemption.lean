/-
The globs of paths that rules keep from being processed. A pattern is a list of tokens read from the
left: `**` is any text, `*` any text without a slash, `?` one scalar, and every other character
itself; the whole path has to match. Each pattern has a regular expression of the same meaning,
whose matcher may take a mebibyte; a pattern past that is refused and exempts nothing.
-/
import Repath.Rule
import Repath.Glob.Matcher
import Repath.Glob.Reach
import Repath.Glob.Regex

namespace Repath

namespace Glob

inductive Token where
  /-- Two stars: any text. -/
  | anything
  /-- A star: any text without a slash. -/
  | segment
  /-- A question mark: one scalar. -/
  | single
  | literal (c : Char)
deriving DecidableEq, Repr

/-- Reads tokens from the left; two stars are read as one token before a single one is. `done`
holds the tokens read, last first. -/
def tokensFrom : Text → List Token → List Token
  | [], done => done.reverse
  | '*' :: '*' :: rest, done => tokensFrom rest (.anything :: done)
  | '*' :: rest, done => tokensFrom rest (.segment :: done)
  | '?' :: rest, done => tokensFrom rest (.single :: done)
  | c :: rest, done => tokensFrom rest (.literal c :: done)

def tokens (pattern : Text) : List Token :=
  tokensFrom pattern []

namespace Token

/-- The token as part of a regular expression in which a point matches any scalar. -/
def regex : Token → Text
  | anything => ['.', '*']
  | segment => ['[', '^', '/', ']', '*']
  | single => ['.']
  | literal c => escaped c

/-- The expression of a token in the form in which it is compiled. -/
def expression : Token → Expression
  | anything => .star .anyScalar
  | segment => .star (.oneScalar [(0, '/'.toNat - 1), ('/'.toNat + 1, 0xD7FF), (0xE000, 0x10FFFF)])
  | single => .anyScalar
  | literal c => .literal (String.utf8EncodeChar c)

/-- The size of two stars. -/
def anythingSize : MatcherSize := anything.expression.size

/-- The size of a star. -/
def segmentSize : MatcherSize := segment.expression.size

/-- The size of a question mark. -/
def singleSize : MatcherSize := single.expression.size

/-- The size of a token's expression. -/
def size : Token → MatcherSize
  | anything => anythingSize
  | segment => segmentSize
  | single => singleSize
  | literal c => (literal c).expression.size

/-- The spots of a path that the token reaches from others. -/
def reach (spots : Spots Char) : Token → Spots Char
  | anything => spots.run fun _ => true
  | segment => spots.run (· != '/')
  | single => spots.one fun _ => true
  | literal c => spots.one (· == c)

end Token

/-- The anchored regular expression of a pattern. -/
def regex (pattern : Text) : Text :=
  "(?s)^".toList ++ ((tokens pattern).flatMap Token.regex ++ ['$'])

/-- The most bytes that a matcher may take. -/
def sizeLimit : Nat := 1024 * 1024

/-- The size of the matcher of a pattern: that of its tokens between both ends of the text. -/
def compiledSize (pattern : Text) : MatcherSize :=
  (tokens pattern).foldl (fun size token => size + token.size)
    (Expression.compiledSize [.sequence [.edge, .edge]])

/-- Why a matcher that is too big is refused. -/
def sizeReason : Text :=
  "Compiled regex exceeds size limit of ".toList ++ Text.ofNat sizeLimit ++ " bytes.".toList

end Glob

/-- A glob whose matcher is compiled. -/
structure PathGlob where
  pattern : Text
  tokens : List Glob.Token
deriving DecidableEq, Repr

namespace PathGlob

/-- Compiles a pattern. -/
def compile (pattern : Text) : Except RuleError PathGlob :=
  if (Glob.compiledSize pattern).fits Glob.sizeLimit then
    .ok ⟨pattern, Glob.tokens pattern⟩
  else
    .error (.badPattern pattern Glob.sizeReason)

/-- Whether the whole path matches. -/
def isMatch (glob : PathGlob) (path : Text) : Bool :=
  (glob.tokens.foldl Glob.Token.reach (Glob.Spots.start path)).reachesEnd

/-- Whether a path matches a pattern; a pattern that does not compile matches nothing. -/
def matchesPattern (path pattern : Text) : Bool :=
  match compile pattern with
  | .ok glob => glob.isMatch path
  | .error _ => false

end PathGlob

/-- The compiled globs of the enabled rules, each with the name of its rule, in the order of the
rules and of their patterns. -/
structure Exemptions where
  entries : List (Text × PathGlob) := []
deriving DecidableEq, Repr

namespace Exemptions

/-- The patterns of the enabled rules, each with the name of its rule. -/
def patterns (rules : List Rule) : List (Text × Text) :=
  (rules.filter (·.enabled)).flatMap fun rule => rule.exemptPaths.map fun p => (rule.name, p)

/-- Compiles the patterns of the enabled rules and leaves out those that are refused. -/
def ofRules (rules : List Rule) : Exemptions where
  entries := (patterns rules).filterMap fun (rule, pattern) =>
    (PathGlob.compile pattern).toOption.map fun glob => (rule, glob)

/-- The patterns that are refused, by rule. -/
def refusals (rules : List Rule) : List (Text × RuleError) :=
  (patterns rules).filterMap fun (rule, pattern) =>
    match PathGlob.compile pattern with
    | .ok _ => none
    | .error error => some (rule, error)

/-- The name of the first rule one of whose globs matches the path. -/
def matchingRule? (exemptions : Exemptions) (path : Text) : Option Text :=
  (exemptions.entries.find? fun (_, glob) => glob.isMatch path).map (·.1)

def isExempt (exemptions : Exemptions) (path : Text) : Bool :=
  (exemptions.matchingRule? path).isSome

def size (exemptions : Exemptions) : Nat :=
  exemptions.entries.length

end Exemptions

end Repath

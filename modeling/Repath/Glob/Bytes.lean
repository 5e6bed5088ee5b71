/-
The globs that choose watched paths. They match whole paths byte by byte: a star and a question
mark also take slashes, two stars between slashes stand for any number of folders, brackets for
one byte of a class, and braces for any of their branches. A pattern whose brackets or braces do
not pair, whose class runs backwards, or that ends in a backslash is refused.
-/
import Repath.Utf8

namespace Repath.Glob

/-- A part of a pattern for watched paths. -/
inductive ByteToken where
  | literal (bytes : Bytes)
  /-- A question mark: one byte. -/
  | any
  /-- A star: any bytes. -/
  | star
  /-- Two stars with a slash, at the start: nothing, a slash, or any bytes that end in a slash. -/
  | leading
  /-- A slash and two stars at the end: a slash and any bytes. -/
  | trailing
  /-- Two stars between slashes: one slash, or two with any bytes between them. -/
  | inner
  /-- One byte in one of the ranges, or in none of them. -/
  | oneOf (negated : Bool) (ranges : List (UInt8 × UInt8))
  | branches (parts : List (List ByteToken))

/-- Why a pattern is refused. -/
inductive GlobFault where
  | unclosedClass
  | reversedRange (low high : Char)
  | unopenedBranches
  | unclosedBranches
  | danglingEscape
deriving DecidableEq, Repr

def GlobFault.message (pattern : Text) (fault : GlobFault) : Text :=
  "error parsing glob '".toList ++ pattern ++ "': ".toList ++ match fault with
  | .unclosedClass => "unclosed character class; missing ']'".toList
  | .reversedRange low high =>
    "invalid range; '".toList ++ low :: "' > '".toList ++ [high, '\'']
  | .unopenedBranches =>
    "unopened alternate group; missing '\x7b' (maybe escape '\x7d' with '[\x7d]'?)".toList
  | .unclosedBranches =>
    "unclosed alternate group; missing '\x7d' (maybe escape '\x7b' with '[\x7b]'?)".toList
  | .danglingEscape => "dangling '\\'".toList

/-! ## Classes -/

/-- The members of a class, read up to its closing bracket; gives them with the text behind it.
`ranges` are those read so far, last first; after a dash that may be a range `dashed` is set. -/
def classFrom : Text → Bool → Bool → List (Char × Char) →
    Except GlobFault (List (Char × Char) × Text)
  | [], _, _, _ => .error .unclosedClass
  | c :: rest, isFirst, dashed, ranges =>
    if c = ']' && !isFirst then
      .ok ((if dashed then ('-', '-') :: ranges else ranges).reverse, rest)
    else if c = '-' && !isFirst && !dashed then classFrom rest false true ranges
    else if c = ']' then classFrom rest false dashed ((c, c) :: ranges)
    else
      match dashed, ranges with
      | true, (low, _) :: others =>
        if c < low then .error (.reversedRange low c)
        else classFrom rest false false ((low, c) :: others)
      | _, _ => classFrom rest false false ((c, c) :: ranges)

/-- The bytes that one member of a class admits. A range between characters of several bytes joins
the last byte of the one to the first byte of the other, and the bytes around them stand alone. -/
def memberRanges (low high : Char) : List (UInt8 × UInt8) :=
  let lows := String.utf8EncodeChar low
  let highs := String.utf8EncodeChar high
  if low = high then lows.map fun b => (b, b)
  else
    lows.dropLast.map (fun b => (b, b)) ++
      (lows.getLastD 0, highs.headD 0) :: highs.tail.map fun b => (b, b)

/-! ## Patterns -/

/-- Where reading a pattern stands: the tokens of the current branch, last first; the braces around
it, innermost first, each with its finished branches and the tokens before it, both last first; and
the character read last. -/
structure GlobState where
  tokens : List ByteToken := []
  braces : List (List (List ByteToken) × List ByteToken) := []
  previous : Option Char := none

namespace GlobState

def push (state : GlobState) (token : ByteToken) (read : Char) : GlobState :=
  { state with tokens := token :: state.tokens, previous := some read }

def literal (state : GlobState) (c : Char) : GlobState :=
  state.push (.literal (String.utf8EncodeChar c)) c

/-- Two stars that stand for any bytes. -/
def twoStars (state : GlobState) : GlobState :=
  (state.push .star '*').push .star '*'

/-- The token of two stars behind a slash; it takes the place of that slash, and of two stars that
are already there. -/
def folders (state : GlobState) (atEnd : Bool) (read : Char) : GlobState :=
  match state.tokens with
  | .leading :: _ => { state with previous := some read }
  | .trailing :: _ => { state with previous := some read }
  | _ :: before =>
    { state with tokens := (if atEnd then .trailing else .inner) :: before, previous := some read }
  | [] => { state with previous := some read }

/-- Reads two stars with the text behind them; gives the text that is left. -/
def stars (state : GlobState) (rest : Text) : GlobState × Text :=
  if state.tokens.isEmpty then
    match rest with
    | [] => (state.push .leading '*', [])
    | '/' :: rest => (state.push .leading '/', rest)
    | _ => (state.twoStars, rest)
  else
    let inBraces := !state.braces.isEmpty
    let mayJoin := state.previous == some '/' ||
      (inBraces && (state.previous == some ',' || state.previous == some '\x7b'))
    if !mayJoin then (state.twoStars, rest) else
    match rest with
    | [] => (state.folders true '*', [])
    | '/' :: rest => (state.folders false '/', rest)
    | c :: _ =>
      if inBraces && (c = ',' || c = '\x7d') then (state.folders true '*', rest)
      else (state.twoStars, rest)

end GlobState

/-- Reads a pattern; `turns` bounds the loop. -/
def readGlob : Nat → Text → GlobState → Except GlobFault (List ByteToken)
  | _, [], state =>
    if state.braces.isEmpty then .ok state.tokens.reverse else .error .unclosedBranches
  | 0, _, _ => .ok []
  | turns + 1, c :: rest, state =>
    if c = '?' then readGlob turns rest (state.push .any c)
    else if c = '*' then
      match rest with
      | '*' :: rest =>
        let (state, rest) := state.stars rest
        readGlob turns rest state
      | _ => readGlob turns rest (state.push .star c)
    else if c = '[' then
      let negated := rest.head? == some '!' || rest.head? == some '^'
      match classFrom (if negated then rest.drop 1 else rest) true false [] with
      | .error fault => .error fault
      | .ok (ranges, rest) =>
        let bytes := ranges.flatMap fun (low, high) => memberRanges low high
        readGlob turns rest (state.push (.oneOf negated bytes) ']')
    else if c = '\x7b' then
      readGlob turns rest
        { tokens := [], braces := ([], state.tokens) :: state.braces, previous := some c }
    else if c = '\x7d' then
      match state.braces with
      | [] => .error .unopenedBranches
      | (parts, before) :: outer =>
        readGlob turns rest
          { tokens := .branches (state.tokens.reverse :: parts).reverse :: before
            braces := outer, previous := some c }
    else if c = ',' then
      match state.braces with
      | [] => readGlob turns rest (state.literal c)
      | (parts, before) :: outer =>
        readGlob turns rest
          { tokens := [], braces := (state.tokens.reverse :: parts, before) :: outer
            previous := some c }
    else if c = '\\' then
      match rest with
      | [] => .error .danglingEscape
      | c :: rest => readGlob turns rest (state.literal c)
    else readGlob turns rest (state.literal c)

/-- A glob for watched paths. -/
structure ByteGlob where
  tokens : List ByteToken

/-- Reads a pattern. -/
def ByteGlob.read (pattern : Text) : Except GlobFault ByteGlob :=
  (readGlob pattern.length pattern {}).map ByteGlob.mk

end Repath.Glob

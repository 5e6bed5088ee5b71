/-
Matching paths against globs. The tokens of a glob say which paths it covers; how a path is checked
follows from their shape. A glob for a file name or for an extension is looked up under the file
name of a path, and so is an expression that only one extension can match; a path that ends in two
points has no file name, and no such glob matches it.
-/
import Repath.Glob.Bytes
import Repath.Glob.Reach

namespace Repath.Glob

/-! ## What tokens cover -/

def everyByte : UInt8 → Bool := fun _ => true

def slash : UInt8 := 0x2F

def point : UInt8 := 0x2E

def isSlash : UInt8 → Bool := fun b => b == slash

/-- Whether a byte is in one of the ranges. -/
def inRanges (ranges : List (UInt8 × UInt8)) (b : UInt8) : Bool :=
  ranges.any fun (low, high) => low ≤ b && b ≤ high

/-- Whether a list of tokens asks for nothing at all; such a branch does not count. -/
def asksNothing : List ByteToken → Bool
  | [] => true
  | .branches parts :: rest => allAskNothing parts && asksNothing rest
  | _ :: _ => false
where
  allAskNothing : List (List ByteToken) → Bool
    | [] => true
    | part :: rest => asksNothing part && allAskNothing rest

mutual

/-- The spots of a path that a token reaches from others. -/
def ByteToken.reach (spots : Spots UInt8) : ByteToken → Spots UInt8
  | .literal bytes => bytes.foldl (fun spots b => spots.one (· == b)) spots
  | .any => spots.one everyByte
  | .star => spots.run everyByte
  | .leading => (spots.either (spots.one isSlash)).either ((spots.run everyByte).one isSlash)
  | .trailing => (spots.one isSlash).run everyByte
  | .inner => (spots.one isSlash).either (((spots.one isSlash).run everyByte).one isSlash)
  | .oneOf negated ranges => spots.one fun b => inRanges ranges b != negated
  | .branches parts =>
    if asksNothing [.branches parts] then spots else reachAny spots parts []
termination_by structural token => token

/-- The spots that tokens reach one after the other. -/
def reachAll (spots : Spots UInt8) : List ByteToken → Spots UInt8
  | [] => spots
  | token :: rest => reachAll (token.reach spots) rest
termination_by structural tokens => tokens

/-- The spots that any branch reaches, beside those reached already. -/
def reachAny (spots : Spots UInt8) : List (List ByteToken) → Spots UInt8 → Spots UInt8
  | [], reached => reached
  | part :: rest, reached =>
    reachAny spots rest
      (if asksNothing part then reached else reached.either (reachAll spots part))
termination_by structural parts => parts

end

/-- Whether the tokens cover a whole path. Two stars alone cover every path. -/
def ByteGlob.covers (glob : ByteGlob) (path : Bytes) : Bool :=
  match glob.tokens with
  | [.leading] => true
  | tokens => (reachAll (Spots.start path) tokens).reachesEnd

/-! ## How a glob is looked up -/

/-- How a path is checked against a glob. -/
inductive Lookup where
  /-- A text is the whole path, or its start or end. -/
  | byText
  /-- A text is the file name, or its extension. -/
  | byName
  /-- An expression is tried if the file name has the extension it ends in. -/
  | byExtension
  /-- An expression is tried on every path. -/
  | byExpression
deriving DecidableEq, Repr

/-- Whether the lookup starts from the file name. -/
def Lookup.usesName : Lookup → Bool
  | byName | byExtension => true
  | byText | byExpression => false

/-- The bytes of a literal. -/
def ByteToken.literalBytes? : ByteToken → Option Bytes
  | .literal bytes => some bytes
  | _ => none

/-- The bytes of tokens that are all literals. -/
def literalBytes? (tokens : List ByteToken) : Option Bytes :=
  if tokens.all (·.literalBytes?.isSome) then
    some (tokens.flatMap fun token => token.literalBytes?.getD [])
  else none

/-- Whether tokens, last first, start with literals back to a point, with no slash among them. -/
def endInExtension : List ByteToken → Bool
  | .literal bytes :: rest =>
    if bytes = [point] then true else if bytes = [slash] then false else endInExtension rest
  | _ => false

/-- Whether bytes are a point and then neither a point nor a slash. -/
def isExtension : Bytes → Bool
  | [] => false
  | b :: rest => b == point && !rest.contains point && !rest.contains slash

/-- The bytes at the start of every path that is covered, if nothing else counts. -/
def startBytes? (tokens : List ByteToken) : Option Bytes :=
  match tokens.getLast? with
  | some .star => literalBytes? tokens.dropLast
  | some .trailing => (literalBytes? tokens.dropLast).map (· ++ [slash])
  | _ => none

/-- How paths are checked against tokens that are not all literals; the second list is the first
one without two stars at its start. -/
def lookupOf (tokens rest : List ByteToken) : Lookup :=
  let tried := if endInExtension tokens.reverse then .byExtension else .byExpression
  match startBytes? tokens with
  | some (_ :: _) => .byText
  | _ =>
    match rest with
    | .star :: ending =>
      match literalBytes? ending with
      | none => tried
      | some bytes =>
        if isExtension bytes then .byName
        else if bytes.isEmpty || bytes == [slash] then .byExpression
        else .byText
    | _ => tried

/-- How paths are checked against a glob. -/
def ByteGlob.lookup (glob : ByteGlob) : Lookup :=
  match glob.tokens with
  | .leading :: rest =>
    match literalBytes? rest with
    | none => lookupOf glob.tokens rest
    | some bytes =>
      if bytes.isEmpty then .byExpression
      else if bytes.contains slash then .byText
      else .byName
  | tokens =>
    match literalBytes? tokens with
    | none => lookupOf tokens tokens
    | some bytes => if bytes.isEmpty then .byExpression else .byText

/-- Whether a path has a file name: its last component is not two points. -/
def hasFileName (path : Bytes) : Bool :=
  path.reverse.takeWhile (· != slash) != [point, point]

/-- Whether a path matches. -/
def ByteGlob.isMatch (glob : ByteGlob) (path : Bytes) : Bool :=
  (hasFileName path || !glob.lookup.usesName) && glob.covers path

end Repath.Glob

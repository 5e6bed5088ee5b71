/-
The size of matchers. An expression is compiled to states, once for reading a path forward and once
for reading it backward. A state takes 32 bytes, a way from it to another state four, and a way for
a range of bytes eight. A choice between literals shares their starts; an encoding of a scalar
shares states where what follows is the same, or, backward, where what came before it is.
-/
import Repath.Glob.Expression
import Repath.Glob.Trie
import Repath.Utf8.Sequences

namespace Repath.Glob

/-- The bytes of the matchers of an expression. -/
structure MatcherSize where
  forward : Nat := 0
  backward : Nat := 0
deriving DecidableEq, Repr

namespace MatcherSize

/-- The same both ways. -/
def both (bytes : Nat) : MatcherSize := ⟨bytes, bytes⟩

instance : Add MatcherSize where
  add a b := ⟨a.forward + b.forward, a.backward + b.backward⟩

/-- Whether both matchers stay within a limit. -/
def fits (size : MatcherSize) (limit : Nat) : Bool :=
  size.forward ≤ limit && size.backward ≤ limit

end MatcherSize

/-! ## States -/

/-- The bytes of a state. -/
def stateBytes : Nat := 32

/-- The bytes of a state with ways to so many others. -/
def forkBytes (ways : Nat) : Nat :=
  stateBytes + 4 * ways

/-- The bytes of a state with ways for so many ranges. -/
def rangesBytes (ranges : Nat) : Nat :=
  stateBytes + 8 * ranges

/-- The bytes of a class of so many ranges of bytes: a state for them, and one where they meet. -/
def classBytes (ranges : Nat) : Nat :=
  rangesBytes ranges + stateBytes

/-- The bytes by which a choice is bigger than what is chosen from: a fork, and a state where the
choices meet. -/
def choiceBytes (choices : Nat) : Nat :=
  forkBytes choices + stateBytes

/-! ## Choices between literals -/

/-- The bytes of the ways that came between two ends; a single one needs no list. -/
def waysBytes : Nat → Nat
  | 0 => 0
  | 1 => stateBytes
  | n => rangesBytes n

/-- The bytes of a node. A leaf is the state where all literals end. -/
def TrieNode.bytes (node : TrieNode) : Nat :=
  if node.isLeaf then 0 else
  let counts := (node.ways.length :: node.ended).filter (· != 0)
  counts.foldl (fun bytes n => bytes + waysBytes n) (forkBytes (counts.length + node.ended.length))

/-- The bytes of a choice between literals. -/
def literalsBytes (literals : List Bytes) : Nat :=
  (Trie.ofList literals).nodes.foldl (fun bytes node => bytes + node.bytes) stateBytes

/-! ## Encodings -/

/-- What follows the first ranges of ordered sequences, for one first range after the other. -/
def followers (sequences : List Utf8.ByteSequence) : List (List Utf8.ByteSequence) :=
  let longer := sequences.filter fun sequence => !sequence.isEmpty
  (longer.splitBy fun a b => a.head? == b.head?).map fun group => group.map List.tail

/-- What follows every start of some lists of sequences, up to a length. -/
def allFollowers : Nat → List (List Utf8.ByteSequence) → List (List Utf8.ByteSequence)
  | 0, _ => []
  | n + 1, lists =>
    let next := lists.flatMap followers
    next ++ allFollowers n next

/-- The bytes of a class of scalars. Forward there is a state for each different way to go on, and
one for the end; backward one for each start of a sequence, a fork to all sequences, and the end. -/
def scalarsBytes (ranges : Ranges) : MatcherSize :=
  let sequences := ranges.flatMap Utf8.sequences
  let next := allFollowers 4 [sequences]
  let states := (sequences :: next).eraseDups.filter (· != [[]])
  { forward := states.foldl (fun bytes state => bytes + rangesBytes (followers state).length)
      stateBytes
    backward := forkBytes sequences.length + stateBytes + next.length * stateBytes }

/-! ## Expressions -/

namespace Expression

/-- The bytes of a literal. -/
def literal? : Expression → Option Bytes
  | .literal bytes => some bytes
  | _ => none

mutual

/-- The size of an expression. -/
def size : Expression → MatcherSize
  | .empty => .both stateBytes
  | .edge => .both stateBytes
  | .literal bytes => .both (bytes.length * stateBytes)
  | .byteClass ranges => .both (classBytes ranges.length)
  | .scalarClass ranges =>
    if ranges.isAscii then .both (classBytes ranges.length) else scalarsBytes ranges
  | .optional item => size item + .both (choiceBytes 2)
  | .star item => size item + .both (forkBytes 2)
  | .sequence items => sizeAll items {}
  | .choice items =>
    match items.mapM literal? with
    | some literals =>
      ⟨literalsBytes literals, literalsBytes (literals.map List.reverse)⟩
    | none => sizeAll items (.both (choiceBytes items.length))
termination_by structural expression => expression

/-- The size of expressions beside what takes room already. -/
def sizeAll : List Expression → MatcherSize → MatcherSize
  | [], taken => taken
  | item :: rest, taken => sizeAll rest (taken + size item)
termination_by structural items => items

end

/-- The size of the matchers of expressions that are compiled together. Each has a state for its
match, and forward two where it starts and ends. -/
def compiledSize (expressions : List Expression) : MatcherSize :=
  let each : MatcherSize := ⟨3 * stateBytes, stateBytes⟩
  let choice := if expressions.length < 2 then 0 else choiceBytes expressions.length
  expressions.foldl (fun taken expression => taken + expression.size + each)
    (.both (stateBytes + choice))

end Expression

end Repath.Glob

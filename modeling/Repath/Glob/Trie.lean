/-
Literals as a tree: the bytes of a literal lead from the root to a node, and literals with the same
start share the way there. Literals keep their order: a way that was there before a literal ended
at a node is kept apart from the ways that come after it.
-/
import Repath.Utf8

namespace Repath.Glob

/-- A node of a tree of literals. -/
structure TrieNode where
  /-- The ways that lead on since a literal last ended here, each by its byte and the number of the
  node it leads to. -/
  ways : List (UInt8 × Nat) := []
  /-- For each literal that ended here, last one first, how many ways had come since the one
  before. -/
  ended : List Nat := []
deriving DecidableEq, Repr

namespace TrieNode

/-- Whether no way leads on. -/
def isLeaf (node : TrieNode) : Bool :=
  node.ways.isEmpty && node.ended.all (· == 0)

/-- Ends a literal here. Where nothing leads on, a second end makes no difference. -/
def finish (node : TrieNode) : TrieNode :=
  if node.isLeaf && !node.ended.isEmpty then node
  else { ways := [], ended := node.ways.length :: node.ended }

end TrieNode

/-- A tree of literals; its root is node zero. -/
structure Trie where
  nodes : Array TrieNode := #[{}]
deriving DecidableEq, Repr

namespace Trie

/-- Goes on from a node by one byte; gives the node it comes to. -/
def step (current : Trie × Nat) (b : UInt8) : Trie × Nat :=
  let (⟨nodes⟩, i) := current
  match (nodes.getD i {}).ways.lookup b with
  | some next => (⟨nodes⟩, next)
  | none =>
    let next := nodes.size
    (⟨(nodes.modify i fun node => { node with ways := (b, next) :: node.ways }).push {}⟩, next)

/-- Adds a literal. -/
def insert (trie : Trie) (literal : Bytes) : Trie :=
  let (⟨nodes⟩, i) := literal.foldl step (trie, 0)
  ⟨nodes.modify i TrieNode.finish⟩

/-- The tree of some literals. -/
def ofList (literals : List Bytes) : Trie :=
  literals.foldl insert {}

end Trie

end Repath.Glob

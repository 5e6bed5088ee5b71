/-
Regular expressions in the form in which they are compiled. Sequences in a sequence and choices in
a choice are taken apart, literals that follow each other are one literal, a class of one member is
a literal, a choice between characters or between classes is a class, and what all choices start
with stands in front of them. The builders keep this form.
-/
import Repath.Glob.Ranges
import Repath.Utf8

namespace Repath.Glob

inductive Expression where
  /-- Nothing. -/
  | empty
  /-- An end of the text. -/
  | edge
  | literal (bytes : Bytes)
  /-- One byte in canonical ranges. -/
  | byteClass (ranges : Ranges)
  /-- The encoding of one scalar in canonical ranges. -/
  | scalarClass (ranges : Ranges)
  | optional (item : Expression)
  | star (item : Expression)
  | sequence (items : List Expression)
  | choice (items : List Expression)

namespace Expression

/-! ## Equal expressions -/

mutual

/-- Whether two expressions are equal. -/
def same : Expression → Expression → Bool
  | .empty, .empty => true
  | .edge, .edge => true
  | .literal bytes, .literal bytes' => bytes == bytes'
  | .byteClass ranges, .byteClass ranges' => ranges == ranges'
  | .scalarClass ranges, .scalarClass ranges' => ranges == ranges'
  | .optional item, .optional item' => same item item'
  | .star item, .star item' => same item item'
  | .sequence items, .sequence items' => sameAll items items'
  | .choice items, .choice items' => sameAll items items'
  | _, _ => false
termination_by structural expression => expression

/-- Whether two lists of expressions are equal. -/
def sameAll : List Expression → List Expression → Bool
  | [], [] => true
  | item :: rest, item' :: rest' => same item item' && sameAll rest rest'
  | _, _ => false
termination_by structural items => items

end

/-! ## Classes -/

/-- One byte of a class. -/
def oneByte (ranges : Ranges) : Expression :=
  match ranges.canonical with
  | [(low, high)] => if low = high then .literal [low.toUInt8] else .byteClass [(low, high)]
  | ranges => .byteClass ranges

/-- One scalar of a class. -/
def oneScalar (ranges : Ranges) : Expression :=
  match ranges.canonical with
  | [(low, high)] =>
    if low = high then .literal (String.utf8EncodeChar (Char.ofNat low))
    else .scalarClass [(low, high)]
  | ranges => .scalarClass ranges

/-- Any byte. -/
def anyByte : Expression := .byteClass [(0, 0xFF)]

/-- Any scalar. -/
def anyScalar : Expression := .scalarClass [(0, 0xD7FF), (0xE000, 0x10FFFF)]

/-- The scalar that an expression stands for as a literal. -/
def scalar? : Expression → Option Nat
  | .literal bytes =>
    match Utf8.pieces (bytes.take 5) with
    | [.scalar c] => some c.toNat
    | _ => none
  | _ => none

/-- The ranges of a class of scalars; bytes are scalars if they are ASCII. -/
def scalars? : Expression → Option Ranges
  | .scalarClass ranges => some ranges
  | .byteClass ranges => if ranges.isAscii then some ranges else none
  | _ => none

/-- The ranges of a class of bytes; scalars are bytes if they are ASCII. -/
def bytes? : Expression → Option Ranges
  | .byteClass ranges => some ranges
  | .scalarClass ranges => if ranges.isAscii then some ranges else none
  | _ => none

/-- Whether an expression stands for nothing. -/
def isEmpty : Expression → Bool
  | .empty => true
  | _ => false

/-! ## Sequences -/

/-- Items that follow each other, last first, and behind them the bytes of a literal that may still
grow, last first. -/
structure Joined where
  done : List Expression := []
  growing : Bytes := []

namespace Joined

/-- All items, last first. -/
def items (joined : Joined) : List Expression :=
  if joined.growing.isEmpty then joined.done
  else .literal joined.growing.reverse :: joined.done

/-- One item more. -/
def add (joined : Joined) : Expression → Joined
  | .empty => joined
  | .literal bytes => { joined with growing := bytes.reverseAux joined.growing }
  | item => { done := item :: joined.items }

/-- One item more, which may be a sequence. -/
def append (joined : Joined) : Expression → Joined
  | .sequence items => items.foldl add joined
  | item => joined.add item

end Joined

/-- Expressions one after the other. -/
def inOrder (items : List Expression) : Expression :=
  match (items.foldl Joined.append {}).items.reverse with
  | [] => .empty
  | [item] => item
  | items => .sequence items

/-! ## Choices -/

/-- The choices that expressions offer, one level deep. -/
def choices (items : List Expression) : List Expression :=
  items.flatMap fun
    | .choice items => items
    | item => [item]

/-- One of some choices, which may be members of a class. -/
def oneOf (items : List Expression) : Expression :=
  match choices items with
  | [item] => item
  | items =>
    match items.mapM scalar?, items.mapM scalars?, items.mapM bytes? with
    | some scalars, _, _ => oneScalar (scalars.map fun n => (n, n))
    | none, some ranges, _ => oneScalar ranges.flatten
    | none, none, some ranges => oneByte ranges.flatten
    | none, none, none => .choice items

/-- The items of a sequence. -/
def sequenceItems? : Expression → Option (List Expression)
  | .sequence items => some items
  | _ => none

/-- How many items two sequences have in common at their start, beside those counted already. -/
def sharedStart : Nat → List Expression → List Expression → Nat
  | n, item :: rest, item' :: rest' =>
    if same item item' then sharedStart (n + 1) rest rest' else n
  | n, _, _ => n

/-- One of some expressions. What sequences start with in common is in front of the choice. -/
def either (items : List Expression) : Expression :=
  match (choices items).mapM sequenceItems? with
  | some (first :: second :: rest) =>
    let shared := (second :: rest).foldl (fun n items => min n (sharedStart 0 first items))
      first.length
    if shared = 0 then oneOf items
    else
      inOrder (first.take shared ++
        [oneOf ((first :: second :: rest).map fun items => inOrder (items.drop shared))])
  | _ => oneOf items

end Expression

end Repath.Glob

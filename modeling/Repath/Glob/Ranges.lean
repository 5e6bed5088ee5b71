/-
Sets of numbers as ranges: bytes and scalars of a class. The canonical ranges of a set stand in
their order and do not touch, so a set has one form.
-/

namespace Repath.Glob

/-- Ranges of numbers, each by its first and its last one. -/
abbrev Ranges := List (Nat × Nat)

namespace Ranges

/-- Joins ordered ranges where they touch, behind one that may still grow; `done` holds the
finished ones, last first. -/
def joinFrom : Nat × Nat → Ranges → Ranges → Ranges
  | grown, [], done => (grown :: done).reverse
  | (low, high), (nextLow, nextHigh) :: rest, done =>
    if nextLow ≤ high + 1 then joinFrom (low, max high nextHigh) rest done
    else joinFrom (nextLow, nextHigh) rest ((low, high) :: done)

/-- The canonical ranges of the same set. -/
def canonical (ranges : Ranges) : Ranges :=
  match ranges.mergeSort fun a b => decide (a.1 ≤ b.1) with
  | [] => []
  | first :: rest => joinFrom first rest []

/-- The numbers from `low` to `last` that are outside canonical ranges. -/
def gaps (last : Nat) : Nat → Ranges → Ranges
  | low, [] => if low ≤ last then [(low, last)] else []
  | low, (first, high) :: rest =>
    if low < first then (low, first - 1) :: gaps last (high + 1) rest
    else gaps last (high + 1) rest

/-- Whether all members are ASCII. -/
def isAscii (ranges : Ranges) : Bool :=
  ranges.all fun range => range.2 < 0x80

end Ranges

end Repath.Glob

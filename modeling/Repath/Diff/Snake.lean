/-
A shortest edit script by divide and conquer. Old lines run along x and new lines along y, and a
diagonal `k` holds the places with `x - y = k`. Two searches, from the start and from the end, go
as far as they can with ever more edits; where they meet, the lists are split. Wherever the split
lies, the parts make up the whole, so the script is one between the two lists for any split.
-/
import Repath.Diff.Script

namespace Repath.Diff

/-- How far a search has come on each diagonal; `middle` is the index of diagonal zero. -/
structure Frontier where
  middle : Nat
  reached : Array Nat

namespace Frontier

/-- Room for the diagonals of `steps` edits, with nothing reached. -/
def empty (steps : Nat) : Frontier :=
  ⟨steps + 1, Array.replicate (2 * steps + 3) 0⟩

def get (f : Frontier) (k : Int) : Nat :=
  f.reached.getD (k + f.middle).toNat 0

def set (f : Frontier) (k : Int) (x : Nat) : Frontier :=
  { f with reached := f.reached.setIfInBounds (k + f.middle).toNat x }

/-- The place where the search enters diagonal `k` with its `d`-th edit: from the neighbour that
has come further. -/
def entry (f : Frontier) (d : Nat) (k : Int) : Nat :=
  if k = -(d : Int) || (k != (d : Int) && f.get (k - 1) < f.get (k + 1)) then f.get (k + 1)
  else f.get (k - 1) + 1

end Frontier

/-- The number of equal lines from a place onwards; `bound` is at least the number of old lines
after the place. -/
def diagonalFrom (old new : Array Text) : Nat → Nat → Nat → Nat
  | 0, _, _ => 0
  | bound + 1, x, y =>
    match old[x]?, new[y]? with
    | some a, some b => if a = b then diagonalFrom old new bound (x + 1) (y + 1) + 1 else 0
    | _, _ => 0

/-- The diagonals that `d` edits can reach, the greatest first. -/
def diagonals (d : Nat) : List Int :=
  (List.range (d + 1)).map fun (i : Nat) => (d : Int) - 2 * (i : Int)

/-- Runs one search over diagonals of its `d`-th edit. With `meet` it stops where it meets the
other search, whose frontier is `other`, and gives the place at which it entered the diagonal. -/
def search (old new : Array Text) (d : Nat) (meet : Bool) (slack : Nat) (other : Frontier) :
    List Int → Frontier → Frontier × Option (Nat × Nat × Nat)
  | [], own => (own, none)
  | k :: ks, own =>
    let delta := (old.size : Int) - (new.size : Int)
    let x := own.entry d k
    let y := ((x : Int) - k).toNat
    let far := x + diagonalFrom old new (old.size - x) x y
    let own := own.set k far
    if meet && (k - delta).natAbs + slack ≤ d && old.size ≤ far + other.get (delta - k) then
      (own, some (x, y, far))
    else search old new d meet slack other ks own

/-- Lets both searches take their `d`-th edit, then the next, up to `rounds` times. A meeting of
the search from the start splits where it entered the diagonal; one of the search from the end,
which reads both lists backwards, splits at the place it came to. -/
def meetingFrom (old new oldBack newBack : Array Text) :
    Nat → Nat → Frontier → Frontier → Option (Nat × Nat)
  | 0, _, _, _ => none
  | rounds + 1, d, ahead, back =>
    let odd := (old.size + new.size) % 2 == 1
    match search old new d odd 1 back (diagonals d) ahead with
    | (_, some (x, y, _)) => some (x, y)
    | (ahead, none) =>
      match search oldBack newBack d (!odd) 0 ahead (diagonals d) back with
      | (_, some (x, y, far)) => some (old.size - far, new.size - (y + (far - x)))
      | (back, none) => meetingFrom old new oldBack newBack rounds (d + 1) ahead back

/-- The split of two lists that differ at both ends. -/
def meeting (old new : List Text) : Option (Nat × Nat) :=
  let rounds := (old.length + new.length + 1) / 2 + 1
  meetingFrom old.toArray new.toArray old.reverse.toArray new.reverse.toArray rounds 0
    (Frontier.empty rounds) (Frontier.empty rounds)

/-- An operation on lines, or none if there are no lines. -/
def opOn (op : List Text → Op) (ls : List Text) : Script :=
  if ls.isEmpty then [] else [op ls]

/-- A script between two lists; `depth` bounds how often they are split. -/
def scriptFrom : Nat → List Text → List Text → Script
  | 0, old, new => opOn .drop old ++ opOn .add new
  | depth + 1, old, new =>
    let ahead := sharedStart old new
    let oldRest := old.drop ahead
    let newRest := new.drop ahead
    let back := sharedEnd oldRest newRest
    let oldMiddle := oldRest.take (oldRest.length - back)
    let newMiddle := newRest.take (newRest.length - back)
    let middle :=
      if oldMiddle.isEmpty || newMiddle.isEmpty then opOn .drop oldMiddle ++ opOn .add newMiddle
      else match meeting oldMiddle newMiddle with
        | none => opOn .drop oldMiddle ++ opOn .add newMiddle
        | some (x, y) =>
          scriptFrom depth (oldMiddle.take x) (newMiddle.take y) ++
            scriptFrom depth (oldMiddle.drop x) (newMiddle.drop y)
    opOn .keep (old.take ahead) ++
      (middle ++ opOn .keep (oldRest.drop (oldRest.length - back)))

/-- A shortest script between two lists of lines. -/
def shortestScript (old new : List Text) : Script :=
  scriptFrom (old.length + new.length + 1) old new

end Repath.Diff

/-
Matching by the spots that are reached. A text of `n` items has `n + 1` spots between and around
them. Each step of a pattern leads from the spots that what was read before it can reach to the next
ones, and no spot is listed twice, so a match costs at most the length of the text for each step,
however many ways the text can be cut.
-/

namespace Repath.Glob

/-- A spot of a text: how many items lie before it, and the items behind it. -/
abbrev Spot (α : Type) := Nat × List α

/-- The spots that are reached, first one first. -/
abbrev Spots (α : Type) := List (Spot α)

namespace Spots

variable {α : Type}

/-- Only the spot before the first item. -/
def start (items : List α) : Spots α :=
  [(0, items)]

/-- The spots one admitted item further. -/
def one (admits : α → Bool) (spots : Spots α) : Spots α :=
  spots.filterMap fun
    | (i, item :: rest) => if admits item then some (i + 1, rest) else none
    | (_, []) => none

/-- Walks on from spot `i`, which is reached if `reached` is set or if it is the first of `later`;
`done` holds the spots reached so far, last first. -/
def runFrom (admits : α → Bool) : Nat → List α → Bool → Spots α → Spots α → Spots α
  | i, [], reached, later, done =>
    (if reached || !later.isEmpty then (i, []) :: done else done).reverse
  | i, item :: rest, reached, later, done =>
    let (isNext, later) := match later with
      | [] => (false, [])
      | next :: others => if next.1 = i then (true, others) else (false, next :: others)
    if reached || isNext then
      runFrom admits (i + 1) rest (admits item) later ((i, item :: rest) :: done)
    else if later.isEmpty then done.reverse
    else runFrom admits (i + 1) rest false later done

/-- The spots any number of admitted items further. -/
def run (admits : α → Bool) : Spots α → Spots α
  | [] => []
  | (i, rest) :: later => runFrom admits i rest true later []

/-- The spots of either list. -/
def either (spots others : Spots α) : Spots α :=
  (spots.merge others fun a b => decide (a.1 ≤ b.1)).eraseRepsBy fun a b => a.1 == b.1

/-- Whether the spot after the last item is reached. -/
def reachesEnd (spots : Spots α) : Bool :=
  match spots.getLast? with
  | some (_, []) => true
  | _ => false

end Spots

end Repath.Glob

/-
Moving changes together. A run of added lines may slide up or down over kept lines that repeat it,
additions and removals may pass each other, and runs of one kind that meet become one. Each change
is moved up as far as it goes and then down as far as it goes, first the removals and then the
additions. No move changes the two sides of the script.
-/
import Repath.Diff.Script

namespace Repath.Diff

/-- A script with one operation picked out; the operations before it are last first. -/
structure Cursor where
  before : Script
  here : Op
  after : Script

/-- Puts kept lines in front of a script, as part of a keep that starts it. -/
def keepBefore (ls : List Text) : Script → Script
  | .keep ms :: rest => .keep (ls ++ ms) :: rest
  | script => .keep ls :: script

/-- Puts kept lines behind a script that is last first, as part of a keep that ends it. -/
def keepAfter (ls : List Text) : Script → Script
  | .keep ms :: rest => .keep (ms ++ ls) :: rest
  | script => .keep ls :: script

/-- The operation, unless it is a keep without lines. -/
def keepIfAny (ls : List Text) (rest : Script) : Script :=
  if ls.isEmpty then rest else .keep ls :: rest

theorem Script.weight_cons (op : Op) (rest : Script) :
    Script.weight (op :: rest) = op.weight + Script.weight rest := by
  simp [Script.weight]

theorem weight_keepIfAny_le (ls : List Text) (rest : Script) :
    Script.weight (keepIfAny ls rest) ≤ ls.length + 1 + Script.weight rest := by
  unfold keepIfAny
  split
  · omega
  · rw [Script.weight_cons]; exact Nat.le_refl _

/-- Moves an operation up until it meets kept lines that it cannot slide over. -/
def moveUp : Script → Op → Script → Cursor
  | [], here, after => ⟨[], here, after⟩
  | .keep ls :: before, .add ms, after =>
    let shared := sharedEnd ls ms
    if 0 < shared then
      let slid := ls.drop (ls.length - shared)
      moveUp (keepIfAny (ls.take (ls.length - shared)) before)
        (.add (slid ++ ms.take (ms.length - shared))) (keepBefore slid after)
    else ⟨.keep ls :: before, .add ms, after⟩
  | .drop ls :: before, .add ms, after => moveUp before (.add ms) (.drop ls :: after)
  | .add ls :: before, .add ms, after => moveUp before (.add (ls ++ ms)) after
  | .add ls :: before, .drop ms, after => moveUp before (.drop ms) (.add ls :: after)
  | .drop ls :: before, .drop ms, after => moveUp before (.drop (ls ++ ms)) after
  | op :: before, here, after => ⟨op :: before, here, after⟩
termination_by before => Script.weight before
decreasing_by
  · have _ := sharedEnd_le_left ls ms
    have := weight_keepIfAny_le (ls.take (ls.length - sharedEnd ls ms)) before
    simp only [Script.weight_cons, Op.weight, List.length_take] at this ⊢
    omega
  all_goals simp only [Script.weight_cons, Op.weight]; omega

/-- Moves an operation down until it meets kept lines that it cannot slide over. -/
def moveDown : Script → Op → Script → Cursor
  | before, here, [] => ⟨before, here, []⟩
  | before, .add ms, .keep ls :: after =>
    let shared := sharedStart ls ms
    if 0 < shared then
      let slid := ls.take shared
      moveDown (keepAfter slid before) (.add (ms.drop shared ++ slid))
        (keepIfAny (ls.drop shared) after)
    else ⟨before, .add ms, .keep ls :: after⟩
  | before, .add ms, .drop ls :: after => moveDown (.drop ls :: before) (.add ms) after
  | before, .add ms, .add ls :: after => moveDown before (.add (ms ++ ls)) after
  | before, .drop ms, .add ls :: after => moveDown (.add ls :: before) (.drop ms) after
  | before, .drop ms, .drop ls :: after => moveDown before (.drop (ms ++ ls)) after
  | before, here, op :: after => ⟨before, here, op :: after⟩
termination_by _ _ after => Script.weight after
decreasing_by
  · have _ := sharedStart_le_left ls ms
    have := weight_keepIfAny_le (ls.drop (sharedStart ls ms)) after
    simp only [Script.weight_cons, Op.weight, List.length_drop] at this ⊢
    omega
  all_goals simp only [Script.weight_cons, Op.weight]; omega

namespace Op

def isDrop : Op → Bool
  | drop _ => true
  | _ => false

def isAdd : Op → Bool
  | add _ => true
  | _ => false

end Op

/-- Moves each operation of a kind in turn. After its moves an operation has no more lines behind
it than before, so the weight of a script bounds the number of turns. -/
def gather (isKind : Op → Bool) : Nat → Script → Script → Script
  | 0, before, after => before.reverse ++ after
  | _, before, [] => before.reverse
  | turns + 1, before, op :: after =>
    if isKind op then
      let up := moveUp before op after
      let down := moveDown up.before up.here up.after
      gather isKind turns (down.here :: down.before) down.after
    else gather isKind turns (op :: before) after

/-- Moves the removals and then the additions of a script together. -/
def compact (script : Script) : Script :=
  let turns := 2 * script.weight + 2
  gather Op.isAdd turns [] (gather Op.isDrop turns [] script)

end Repath.Diff

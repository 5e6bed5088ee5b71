/-
Cooldown by path. Committing an edit makes the editor save again, and the cooldown keeps that save
from being processed. A path is recorded with the time it was last processed; it cools for a while
from then on, and a sweep forgets it once it is old enough. Times are milliseconds from a common
start, and an age is never negative, even if times run backwards.
-/
import Repath.PathName

namespace Repath

structure Cooldown where
  /-- How long a path cools. -/
  window : Nat := 5000
  /-- The greatest age that a sweep keeps. -/
  expiry : Nat := 300000
  /-- The paths that are tracked, each with the time of its last record. -/
  entries : List (PathKey × Nat) := []
deriving DecidableEq, Repr

namespace Cooldown

/-- The time of the last record of a path, if it is tracked. -/
def last? (cooldown : Cooldown) (path : Text) : Option Nat :=
  cooldown.entries.lookup (PathName.key path)

/-- Whether a path was processed less than the window ago. -/
def isCooling (cooldown : Cooldown) (path : Text) (now : Nat) : Bool :=
  match cooldown.last? path with
  | none => false
  | some last => now - last < cooldown.window

/-- Records a path as processed now. -/
def record (cooldown : Cooldown) (path : Text) (now : Nat) : Cooldown :=
  let key := PathName.key path
  { cooldown with entries := (key, now) :: cooldown.entries.filter fun entry => entry.1 != key }

/-- Forgets the paths whose age is past the expiry. -/
def sweep (cooldown : Cooldown) (now : Nat) : Cooldown :=
  { cooldown with entries := cooldown.entries.filter fun entry => now - entry.2 ≤ cooldown.expiry }

/-- The number of tracked paths. -/
def size (cooldown : Cooldown) : Nat :=
  cooldown.entries.length

/-- The number of paths that a sweep forgets. -/
def sweptCount (cooldown : Cooldown) (now : Nat) : Nat :=
  cooldown.size - (cooldown.sweep now).size

end Cooldown

end Repath

/-
A document in memory whose holder follows a script: it accepts edits, declines them, or fails with
a chain of messages, and single lines may already read differently from the text. Every set of
edits handed in is kept, whatever became of it.
-/
import Repath.LiveDocument

namespace Repath

/-- How the holder answers edits. An accepting holder still declines those that address a missing
line. -/
inductive Conduct where
  | accepts
  | declines
  | fails (chain : List Text)
deriving DecidableEq, Repr

structure ScriptedDocument where
  path : Text
  text : Text
  language : Text := "go".toList
  conduct : Conduct := .accepts
  /-- Lines that no longer read as in the text; a line without content is gone. -/
  drift : List (Nat × Option Text) := []
  /-- The edits handed in, in order. -/
  received : List (List LineEdit) := []
deriving DecidableEq, Repr

namespace ScriptedDocument

def line? (document : ScriptedDocument) (n : Nat) : Option Text :=
  match document.drift.lookup n with
  | some content => content
  | none => document.text.lines[n]?

def apply (edits : List LineEdit) (document : ScriptedDocument) :
    ScriptedDocument × Reply × List Event :=
  let document := { document with received := document.received ++ [edits] }
  match document.conduct with
  | .declines => (document, .declined, [])
  | .fails chain => (document, .raised chain, [])
  | .accepts =>
    match LineEdit.applyAll edits document.text with
    | .ok text => ({ document with text }, .accepted, [])
    | .error _ => (document, .declined, [])

/-- Scripted documents as documents to commit to. -/
def kind : LiveDocument ScriptedDocument where
  path := path
  text := text
  line? := line?
  apply := apply

end ScriptedDocument

end Repath

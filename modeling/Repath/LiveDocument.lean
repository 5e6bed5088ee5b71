/-
Documents that someone else holds, and the commit of a pass to one. A document is known by what it
answers: its path, its text, a line of it, and its reply to a set of edits. A commit first asks for
every line it has a record of, and hands in its edits, once, only if each still reads as it was
scanned.
-/
import Repath.Edit
import Repath.Log

namespace Repath

/-- The reply to edits: they are in, or nothing has changed. -/
inductive Reply where
  | accepted
  | declined
  | raised (chain : List Text)
deriving DecidableEq, Repr

/-- A kind of document with states `σ`. Taking edits gives the next state, the reply, and what the
holder has to report. -/
structure LiveDocument (σ : Type) where
  path : σ → Text
  text : σ → Text
  line? : σ → Nat → Option Text
  apply : List LineEdit → σ → σ × Reply × List Event

/-- Why a pass was not committed. -/
inductive CommitError where
  | declined (path : Text)
  | raised (path message : Text)
  | stale (path : Text) (line : Nat)
deriving DecidableEq, Repr

def CommitError.message : CommitError → Text
  | .declined path => "host rejected the edit for ".toList ++ path
  | .raised path message =>
    "host error while editing ".toList ++ path ++ ": ".toList ++ message
  | .stale path line =>
    path ++ " changed at line ".toList ++ Text.ofNat line ++
      " before the edit was committed".toList

/-- The line of the first record that no longer reads as it was scanned. Only the first record of
a line counts, since the later ones start from what an earlier rule made of it; `seen` holds the
lines asked for. -/
def firstStale (line? : Nat → Option Text) : List Replacement → List Nat → Option Nat
  | [], _ => none
  | r :: rest, seen =>
    if seen.contains r.line then firstStale line? rest seen
    else if line? r.line = some r.before then firstStale line? rest (r.line :: seen)
    else some r.line

/-- What a commit came to. -/
structure Commit (σ : Type) where
  document : σ
  result : Except CommitError Unit
  remarks : List Event

/-- Commits a pass to a document. -/
def Pass.commit {σ : Type} (pass : Pass) (kind : LiveDocument σ) (document : σ) : Commit σ :=
  let path := kind.path document
  match firstStale (kind.line? document) pass.replacements [] with
  | some line => ⟨document, .error (.stale path line), []⟩
  | none =>
    match kind.apply pass.edits document with
    | (document, .accepted, remarks) => ⟨document, .ok (), remarks⟩
    | (document, .declined, remarks) => ⟨document, .error (.declined path), remarks⟩
    | (document, .raised chain, remarks) =>
      ⟨document, .error (.raised path (Text.chain chain)), remarks⟩

end Repath

/-
What is asked of the holder of a document. A document is plain if its lines read as its text and
edits to lines that are there are taken as they come; a holder is careful if it changes a text only
when it accepts the edits. To count what is handed in, every kind of document has a recorded twin
that answers the same and keeps the edits.
-/
import Repath.ScriptedDocument

namespace Repath

namespace LiveDocument

variable {σ : Type}

/-- The same documents, each with the list of all edits that were handed in. -/
def recorded (kind : LiveDocument σ) : LiveDocument (σ × List (List LineEdit)) where
  path document := kind.path document.1
  text document := kind.text document.1
  line? document := kind.line? document.1
  apply edits document :=
    (((kind.apply edits document.1).1, document.2 ++ [edits]), (kind.apply edits document.1).2)

/-- A document whose lines read as its text and whose holder takes all edits that apply to it. -/
structure Plain (kind : LiveDocument σ) (document : σ) : Prop where
  line : ∀ n, kind.line? document n = (kind.text document).lines[n]?
  takes : ∀ edits text, LineEdit.applyAll edits (kind.text document) = .ok text →
    (kind.apply edits document).2.1 = .accepted ∧ kind.text (kind.apply edits document).1 = text

/-- A document whose holder changes the text only if it accepts the edits. -/
def Careful (kind : LiveDocument σ) (document : σ) : Prop :=
  ∀ edits, (kind.apply edits document).2.1 ≠ .accepted →
    kind.text (kind.apply edits document).1 = kind.text document

end LiveDocument

namespace ScriptedDocument

/-- A scripted document without drift whose holder accepts edits is plain. -/
theorem plain {document : ScriptedDocument} (hacc : document.conduct = .accepts)
    (hdrift : document.drift = []) : kind.Plain document where
  line n := by
    show line? document n = _
    rw [line?, hdrift]
    rfl
  takes edits text h := by
    have happly : apply edits document =
        ({ document with received := document.received ++ [edits], text }, .accepted, []) := by
      unfold apply
      simp only [hacc]
      rw [show LineEdit.applyAll edits document.text = .ok text from h]
    show (apply edits document).2.1 = _ ∧ (apply edits document).1.text = text
    rw [happly]
    exact ⟨rfl, rfl⟩

/-- Every scripted document has a careful holder. -/
theorem careful (document : ScriptedDocument) : kind.Careful document := by
  intro edits h
  show (apply edits document).1.text = document.text
  replace h : (apply edits document).2.1 ≠ .accepted := h
  unfold apply at h ⊢
  cases hc : document.conduct with
  | declines => rfl
  | fails chain => rfl
  | accepts =>
    simp only [hc] at h ⊢
    cases ha : LineEdit.applyAll edits document.text with
    | error n => rfl
    | ok text => rw [ha] at h; exact absurd rfl h

end ScriptedDocument

end Repath

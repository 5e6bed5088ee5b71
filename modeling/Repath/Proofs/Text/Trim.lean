/-
Texts without the blanks at their ends. Trimming leaves a part of the text with blanks on both of
its sides and none at its own ends (`trimsTo_trim`); so blanks put at an end make no difference
(`trim_append_of_isBlank`, `trim_of_isBlank_append`), and trimming a trimmed text does nothing.
-/
import Repath.Text
import Mathlib.Data.List.DropRight
import Mathlib.Data.List.TakeWhile

namespace Repath.Text

/-- The second text is the first one without the blanks at both of its ends. -/
structure TrimsTo (t trimmed : Text) : Prop where
  around : ∃ front back : Text, t = front ++ trimmed ++ back ∧ front.isBlank = true ∧ back.isBlank = true
  head : ∀ c, trimmed.head? = some c → isBlankChar c = false
  last : ∀ c, trimmed.getLast? = some c → isBlankChar c = false

/-- A text that starts with no blank still does so without the blanks at its end. -/
theorem trimStart_trimEnd {t : Text} (h : trimStart t = t) : trimStart (trimEnd t) = trimEnd t := by
  have hpre : trimEnd t <+: t := List.rdropWhile_prefix isBlankChar t
  rw [trimStart, List.dropWhile_eq_self_iff] at h ⊢
  intro hpos
  rw [hpre.getElem hpos]
  exact h (Nat.lt_of_lt_of_le hpos hpre.length_le)

@[simp] theorem trim_trim (t : Text) : t.trim.trim = t.trim := by
  have hstart : trimStart (trimStart t) = trimStart t := List.dropWhile_idempotent isBlankChar t
  have hend : trimEnd (trimEnd (trimStart t)) = trimEnd (trimStart t) :=
    List.rdropWhile_idempotent isBlankChar (trimStart t)
  rw [trim, trim, trimStart_trimEnd hstart, hend]

theorem trim_of_isBlank {t : Text} (h : t.isBlank = true) : t.trim = [] := by
  have hstart : trimStart t = [] := List.dropWhile_eq_nil_iff.2 (List.all_eq_true.1 h)
  rw [trim, hstart]
  rfl

theorem not_blank_of_head?_dropWhile {t : Text} {c : Char}
    (h : (t.dropWhile isBlankChar).head? = some c) : isBlankChar c = false := by
  have hfirst := List.head?_dropWhile_not isBlankChar t
  rwa [h] at hfirst

theorem trimsTo_trim (t : Text) : t.TrimsTo t.trim := by
  have hstart : t.takeWhile isBlankChar ++ t.trimStart = t := List.takeWhile_append_dropWhile
  have hend : t.trim ++ t.trimStart.rtakeWhile isBlankChar = t.trimStart :=
    List.rdropWhile_append_rtakeWhile ..
  refine ⟨⟨t.takeWhile isBlankChar, t.trimStart.rtakeWhile isBlankChar, ?_, ?_, ?_⟩,
    fun c hc => ?_, fun c hc => ?_⟩
  · rw [List.append_assoc, hend, hstart]
  · exact List.all_takeWhile
  · exact List.all_eq_true.2 fun _ hc => List.mem_rtakeWhile_imp hc
  · have hkept : trimStart t.trim = t.trim :=
      trimStart_trimEnd (List.dropWhile_idempotent isBlankChar t)
    rw [← hkept] at hc
    exact not_blank_of_head?_dropWhile hc
  · rw [trim, trimEnd, List.getLast?_reverse] at hc
    exact not_blank_of_head?_dropWhile hc

theorem trim_infix_self (t : Text) : t.trim <:+: t := by
  obtain ⟨front, back, hsplit, -⟩ := (trimsTo_trim t).around
  exact ⟨front, back, hsplit.symm⟩

/-- Blanks at the end of a text are trimmed away. -/
theorem trim_append_of_isBlank (t : Text) {blanks : Text} (h : blanks.isBlank = true) :
    trim (t ++ blanks) = trim t := by
  have hall : ∀ c ∈ blanks, isBlankChar c = true := List.all_eq_true.1 h
  have hgone : blanks.dropWhile isBlankChar = [] := List.dropWhile_eq_nil_iff.2 hall
  have hend : ∀ s : Text, trimEnd (s ++ blanks) = trimEnd s := by
    intro s
    have hback : ∀ c ∈ blanks.reverse, isBlankChar c = true := fun c hc => hall c (List.mem_reverse.1 hc)
    rw [trimEnd, List.reverse_append, List.dropWhile_append_of_pos hback, trimEnd]
  unfold trim trimStart
  rw [List.dropWhile_append]
  split
  · rename_i hempty
    rw [hgone, List.isEmpty_iff.1 hempty]
  · exact hend _

/-- Blanks at the start of a text are trimmed away. -/
theorem trim_of_isBlank_append {blanks : Text} (h : blanks.isBlank = true) (t : Text) :
    trim (blanks ++ t) = trim t := by
  rw [trim, trimStart, List.dropWhile_append_of_pos (List.all_eq_true.1 h), trim, trimStart]

end Repath.Text

/-
The lines of a text that was put together from pieces. A line holds no line feed and stands in the
text as it is; the lines of texts joined by line feeds are the lines of each of them, one after the
other (`lines_joinLines_eq_flatMap`), so a piece with line feeds in it becomes several lines.
-/
import Repath.Text
import Mathlib.Data.List.Basic

namespace Repath.Text

theorem newline_notMem_of_mem_lines : ∀ {t l : Text}, l ∈ lines t → '\n' ∉ l
  | [], l, h => by
    rw [show l = [] from List.mem_singleton.1 h]
    exact List.not_mem_nil
  | c :: t, l, h => by
    rw [lines, List.splitOn_cons_eq_if_modifyHead] at h
    split at h
    · rcases List.mem_cons.1 h with rfl | h
      · exact List.not_mem_nil
      · exact newline_notMem_of_mem_lines h
    · rename_i hc
      obtain ⟨first, rest, hsplit⟩ := List.exists_cons_of_ne_nil (lines_ne_nil t)
      have hrest : ∀ m ∈ first :: rest, '\n' ∉ m :=
        fun m hm => newline_notMem_of_mem_lines (t := t) (hsplit ▸ hm)
      rw [show t.splitOn '\n' = first :: rest from hsplit, List.modifyHead_cons] at h
      rcases List.mem_cons.1 h with rfl | h
      · rw [List.mem_cons, not_or]
        exact ⟨fun heq => hc (beq_iff_eq.2 heq.symm), hrest first (List.mem_cons_self ..)⟩
      · exact hrest l (List.mem_cons_of_mem _ h)

/-- A text without a line feed is its own only line. -/
theorem lines_of_newline_notMem {t : Text} (h : '\n' ∉ t) : lines t = [t] :=
  List.splitOn_eq_singleton h

theorem joinLines_cons (l : Text) {ls : List Text} (h : ls ≠ []) :
    joinLines (l :: ls) = l ++ '\n' :: joinLines ls := by
  rw [joinLines, List.intercalate_cons_of_ne_nil h, List.append_assoc]
  rfl

theorem lines_append_newline (l rest : Text) : lines (l ++ '\n' :: rest) = lines l ++ lines rest :=
  List.splitOn_append_cons_self ..

/-- The lines of joined texts are the lines of each of them, one after the other. -/
theorem lines_joinLines_eq_flatMap :
    ∀ {ls : List Text}, ls ≠ [] → lines (joinLines ls) = ls.flatMap lines
  | [l], _ => by simp [joinLines]
  | l :: m :: ls, _ => by
    rw [joinLines_cons l (List.cons_ne_nil m ls), lines_append_newline, List.flatMap_cons,
      ← lines_joinLines_eq_flatMap (List.cons_ne_nil m ls)]

/-- Texts have at least one line each. -/
theorem length_le_flatMap_lines : ∀ ls : List Text, ls.length ≤ (ls.flatMap lines).length
  | [] => Nat.le_refl _
  | l :: ls => by
    have hone : 0 < (lines l).length := List.length_pos_iff.2 (lines_ne_nil l)
    have hrest := length_le_flatMap_lines ls
    rw [List.flatMap_cons, List.length_append, List.length_cons]
    omega

/-- Texts that have no more lines than there are texts are lines themselves. -/
theorem flatMap_lines_of_length_le :
    ∀ {ls : List Text}, (ls.flatMap lines).length ≤ ls.length → ls.flatMap lines = ls
  | [], _ => rfl
  | l :: ls, h => by
    have hone : 0 < (lines l).length := List.length_pos_iff.2 (lines_ne_nil l)
    have hrest := length_le_flatMap_lines ls
    rw [List.flatMap_cons, List.length_append, List.length_cons] at h
    obtain ⟨only, honly⟩ := List.length_eq_one_iff.1 (show (lines l).length = 1 by omega)
    have hjoined := joinLines_lines l
    rw [honly, joinLines, List.intercalate_singleton] at hjoined
    rw [List.flatMap_cons, flatMap_lines_of_length_le (by omega), honly, hjoined]
    rfl

/-- Texts are their own lines if none of them holds a line feed. -/
theorem flatMap_lines_eq_self_iff {ls : List Text} :
    ls.flatMap lines = ls ↔ ∀ l ∈ ls, '\n' ∉ l := by
  refine ⟨fun h l hl => ?_, fun h => ?_⟩
  · rw [← h] at hl
    obtain ⟨whole, -, hl⟩ := List.mem_flatMap.1 hl
    exact newline_notMem_of_mem_lines hl
  · exact (List.flatMap_congr fun l hl => lines_of_newline_notMem (h l hl)).trans
      (List.flatMap_singleton' ls)

/-- Joined texts have as many lines as there are texts only if none of them holds a line feed. -/
theorem length_lines_joinLines_eq_iff {ls : List Text} (hne : ls ≠ []) :
    (lines (joinLines ls)).length = ls.length ↔ ∀ l ∈ ls, '\n' ∉ l := by
  rw [lines_joinLines_eq_flatMap hne, ← flatMap_lines_eq_self_iff]
  exact ⟨fun h => flatMap_lines_of_length_le (Nat.le_of_eq h), congrArg List.length⟩

/-- Texts that join to a text with as many lines are the lines of that text. -/
theorem eq_lines_of_joinLines_eq {ls : List Text} {t : Text} (hlength : ls.length = (lines t).length)
    (h : joinLines ls = t) : ls = lines t := by
  have hne : ls ≠ [] := by
    rintro rfl
    exact lines_ne_nil t (List.length_eq_zero_iff.1 hlength.symm)
  have hsame : ls.flatMap lines = lines t := by rw [← lines_joinLines_eq_flatMap hne, h]
  rw [← hsame, flatMap_lines_of_length_le (Nat.le_of_eq (by rw [hsame, hlength]))]

/-- Every one of joined texts stands in the whole. -/
theorem infix_joinLines_of_mem : ∀ {ls : List Text} {l : Text}, l ∈ ls → l <:+: joinLines ls
  | [m], l, h => by
    obtain rfl := List.mem_singleton.1 h
    have hsingle : joinLines [l] = l := List.intercalate_singleton
    exact ⟨[], [], by rw [List.nil_append, List.append_nil, hsingle]⟩
  | m :: n :: ls, l, h => by
    rw [joinLines_cons m (List.cons_ne_nil n ls)]
    rcases List.mem_cons.1 h with rfl | h
    · exact (List.prefix_append l _).isInfix
    · have hbehind : joinLines (n :: ls) <:+ m ++ '\n' :: joinLines (n :: ls) :=
        (List.suffix_cons '\n' _).trans (List.suffix_append m _)
      exact (infix_joinLines_of_mem h).trans hbehind.isInfix

theorem infix_of_mem_lines {t l : Text} (h : l ∈ lines t) : l <:+: t := by
  have hjoined := infix_joinLines_of_mem h
  rwa [joinLines_lines] at hjoined

end Repath.Text

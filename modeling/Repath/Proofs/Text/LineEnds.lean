/-
Texts whose lines end in a carriage return and a line feed. Putting a carriage return before every
line feed puts one at the end of every line but the last (`lines_crlf`).
-/
import Repath.Proofs.Text.Lines

namespace Repath.Text

/-- The text with a carriage return before every line feed. -/
def crlf (t : Text) : Text :=
  t.flatMap fun c => if c = '\n' then ['\r', '\n'] else [c]

/-- What stands before the line feed of line `n` of `count` lines; the last line has none. -/
def lineEnd (count n : Nat) : Text :=
  if n + 1 < count then ['\r'] else []

theorem lineEnd_succ (count n : Nat) : lineEnd (count + 1) (n + 1) = lineEnd count n := by
  simp [lineEnd]

theorem mem_lineEnd {count n : Nat} {c : Char} (h : c ∈ lineEnd count n) : c = '\r' := by
  unfold lineEnd at h
  split at h
  · exact List.mem_singleton.1 h
  · cases h

theorem isBlank_lineEnd (count n : Nat) : (lineEnd count n).isBlank = true :=
  List.all_eq_true.2 fun _ hc => mem_lineEnd hc ▸ rfl

/-! ## Lines -/

theorem zipIdx_mapIdx {α β : Type} (f : Nat → α → β) (l : List α) :
    (l.mapIdx f).zipIdx = l.zipIdx.map fun (a, n) => (f n a, n) := by
  refine List.ext_getElem? fun n => ?_
  simp [Function.comp_def]

theorem crlf_append (s t : Text) : crlf (s ++ t) = crlf s ++ crlf t :=
  List.flatMap_append

theorem crlf_newline_cons (t : Text) : crlf ('\n' :: t) = '\r' :: '\n' :: crlf t := by
  rw [crlf, List.flatMap_cons, if_pos rfl]
  rfl

theorem crlf_of_newline_notMem : ∀ {t : Text}, '\n' ∉ t → crlf t = t
  | [], _ => rfl
  | c :: t, h => by
    rw [List.mem_cons, not_or] at h
    rw [crlf, List.flatMap_cons, if_neg (Ne.symm h.1), ← crlf, crlf_of_newline_notMem h.2]
    rfl

/-- Lines that hold no line feed, each with its end, join to the text with carriage returns. -/
theorem joinLines_mapIdx_lineEnd :
    ∀ {ls : List Text}, (∀ l ∈ ls, '\n' ∉ l) →
      joinLines (ls.mapIdx fun n l => l ++ lineEnd ls.length n) = crlf (joinLines ls)
  | [], _ => rfl
  | [l], h => by
    have hl : '\n' ∉ l := h l (List.mem_cons_self ..)
    simp [joinLines, lineEnd, crlf_of_newline_notMem hl]
  | l :: m :: ls, h => by
    have hl : '\n' ∉ l := h l (List.mem_cons_self ..)
    have hrest := joinLines_mapIdx_lineEnd fun k hk => h k (List.mem_cons_of_mem l hk)
    have hends : (l :: m :: ls).mapIdx (fun n l' => l' ++ lineEnd (l :: m :: ls).length n) =
        (l ++ ['\r']) :: (m :: ls).mapIdx fun n l' => l' ++ lineEnd (m :: ls).length n := by
      rw [List.mapIdx_cons]
      simp only [List.length_cons, lineEnd_succ]
      simp [lineEnd]
    rw [hends, joinLines_cons _ (by simp), hrest, joinLines_cons l (List.cons_ne_nil m ls),
      crlf_append, crlf_newline_cons, crlf_of_newline_notMem hl, List.append_assoc]
    rfl

/-- Of a text with carriage returns, every line but the last ends in one. -/
theorem lines_crlf (t : Text) :
    lines (crlf t) = (lines t).mapIdx fun n l => l ++ lineEnd (lines t).length n := by
  have hfeed : ∀ l ∈ lines t, '\n' ∉ l := fun _ hl => newline_notMem_of_mem_lines hl
  have hjoined := joinLines_mapIdx_lineEnd hfeed
  rw [joinLines_lines] at hjoined
  rw [← hjoined, lines_joinLines]
  · intro l hl hmem
    obtain ⟨n, hn, rfl⟩ := List.mem_mapIdx.1 hl
    rcases List.mem_append.1 hmem with hmem | hmem
    · exact hfeed _ (List.getElem_mem hn) hmem
    · exact absurd (mem_lineEnd hmem) (by decide)
  · simpa using lines_ne_nil t

end Repath.Text

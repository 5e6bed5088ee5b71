/-
What line edits make of a text. Edits are applied in order, so the last one on a line wins
(`lastOn`); if every edit addresses a line that is there, the text becomes its lines with those
last edits in place (`applyAll_ok`).
-/
import Repath.Edit

namespace Repath.LineEdit

/-- The text of the last edit on a line. -/
def lastOn (edits : List LineEdit) (n : Nat) : Option Text :=
  (edits.reverse.find? fun edit => edit.line = n).map (·.text)

theorem lastOn_nil (n : Nat) : lastOn [] n = none := rfl

theorem lastOn_cons (edit : LineEdit) (rest : List LineEdit) (n : Nat) :
    lastOn (edit :: rest) n = (lastOn rest n).or (if edit.line = n then some edit.text else none) := by
  unfold lastOn
  rw [List.reverse_cons, List.find?_append, Option.map_or]
  congr 1
  split <;> simp [*]

theorem lastOn_eq_none_iff {edits : List LineEdit} {n : Nat} :
    lastOn edits n = none ↔ ∀ edit ∈ edits, edit.line ≠ n := by
  simp [lastOn]

/-- Where the lines of the edits increase, an edit is the last one on its line. -/
theorem lastOn_of_mem {edits : List LineEdit} (h : edits.Pairwise fun a b => a.line < b.line)
    {edit : LineEdit} (hmem : edit ∈ edits) : lastOn edits edit.line = some edit.text := by
  induction h with
  | nil => cases hmem
  | @cons first rest hlt _ ih =>
    rw [lastOn_cons]
    rcases List.mem_cons.1 hmem with rfl | hmem
    · rw [lastOn_eq_none_iff.2 fun e he => Nat.ne_of_gt (hlt e he), if_pos rfl]
      rfl
    · rw [ih hmem]
      rfl

/-- The edits of any one line are the same ones in the same order. -/
def SameByLine (edits others : List LineEdit) : Prop :=
  ∀ n, (others.filter fun edit => edit.line = n) = edits.filter fun edit => edit.line = n

theorem lastOn_filter (edits : List LineEdit) (n : Nat) :
    lastOn (edits.filter fun edit => edit.line = n) n = lastOn edits n := by
  unfold lastOn
  rw [← List.filter_reverse, List.find?_filter]
  simp

theorem SameByLine.lastOn {edits others : List LineEdit} (h : SameByLine edits others) (n : Nat) :
    lastOn others n = lastOn edits n := by
  rw [← lastOn_filter others, h n, lastOn_filter]

theorem SameByLine.mem_iff {edits others : List LineEdit} (h : SameByLine edits others)
    (edit : LineEdit) : edit ∈ others ↔ edit ∈ edits := by
  have hmem := congrArg (edit ∈ ·) (h edit.line)
  simpa using hmem

/-- Edits of distinct lines may stand in any order. -/
theorem SameByLine.of_perm {edits others : List LineEdit} (hperm : others.Perm edits)
    (hdistinct : (edits.map (·.line)).Nodup) : SameByLine edits others := by
  intro n
  have hfilter := hperm.filter fun edit => edit.line = n
  have hapart := (List.pairwise_map.1 hdistinct).filter fun edit => edit.line = n
  have hline : ∀ edit ∈ edits.filter fun edit => edit.line = n, edit.line = n :=
    fun edit h => of_decide_eq_true (List.mem_filter.1 h).2
  cases h : edits.filter fun edit => edit.line = n with
  | nil => exact (h ▸ hfilter).eq_nil
  | cons edit rest =>
    cases rest with
    | nil => exact List.perm_singleton.1 (h ▸ hfilter)
    | cons other rest =>
      -- a line has one edit at most
      rw [h] at hapart hline
      have hne := (List.pairwise_cons.1 hapart).1 other (by simp)
      exact absurd ((hline edit (by simp)).trans (hline other (by simp)).symm) hne

/-! ## Applying edits -/

/-- No edits leave a text as it is. -/
theorem applyAll_nil (text : Text) : applyAll [] text = .ok text :=
  congrArg Except.ok (Text.joinLines_lines text)

theorem applyToLines_ok :
    ∀ (edits : List LineEdit) (lines : Array Text), (∀ edit ∈ edits, edit.line < lines.size) →
      ∃ result, applyToLines edits lines = .ok result ∧
        ∀ n, result[n]? = lines[n]?.map fun line => (lastOn edits n).getD line
  | [], lines, _ => ⟨lines, rfl, fun n => by simp [lastOn_nil]⟩
  | edit :: rest, lines, h => by
    have hin : edit.line < lines.size := h edit (List.mem_cons_self ..)
    obtain ⟨result, hok, hget⟩ := applyToLines_ok rest (lines.setIfInBounds edit.line edit.text)
      fun e he => by
        rw [Array.size_setIfInBounds]
        exact h e (List.mem_cons_of_mem _ he)
    refine ⟨result, by rw [applyToLines, if_pos hin, hok], fun n => ?_⟩
    rw [hget n, Array.getElem?_setIfInBounds, lastOn_cons]
    by_cases hn : edit.line = n
    · subst hn
      rw [if_pos rfl, if_pos hin, if_pos rfl, Array.getElem?_eq_getElem hin]
      cases lastOn rest edit.line <;> rfl
    · rw [if_neg hn, if_neg hn, Option.or_none]

/-- Edits that all address lines of the text put the last edit of each line in its place. -/
theorem applyAll_ok {edits : List LineEdit} {text : Text}
    (h : ∀ edit ∈ edits, edit.line < text.lines.length) :
    applyAll edits text =
      .ok (Text.joinLines (text.lines.mapIdx fun n line => (lastOn edits n).getD line)) := by
  obtain ⟨result, hok, hget⟩ := applyToLines_ok edits text.lines.toArray (by simpa using h)
  have hlines : result.toList = text.lines.mapIdx fun n line => (lastOn edits n).getD line := by
    refine List.ext_getElem? fun n => ?_
    rw [Array.getElem?_toList, hget n, List.getElem?_toArray, List.getElem?_mapIdx]
  rw [applyAll, hok, ← hlines]
  rfl

theorem applyToLines_missing :
    ∀ (edits : List LineEdit) (lines : Array Text), (∃ edit ∈ edits, lines.size ≤ edit.line) →
      ∃ n, applyToLines edits lines = .error n
  | [], _, h => by simp at h
  | edit :: rest, lines, h => by
    rw [applyToLines]
    split
    · rename_i hin
      obtain ⟨other, hmem, hout⟩ := h
      refine applyToLines_missing rest _ ⟨other, ?_, by rwa [Array.size_setIfInBounds]⟩
      rcases List.mem_cons.1 hmem with rfl | hmem
      · omega
      · exact hmem
    · exact ⟨edit.line, rfl⟩

/-- An edit of a missing line stops them all, wherever it stands. -/
theorem applyAll_missing {edits : List LineEdit} {text : Text}
    (h : ∃ edit ∈ edits, text.lines.length ≤ edit.line) : ∃ n, applyAll edits text = .error n := by
  obtain ⟨n, hn⟩ := applyToLines_missing edits text.lines.toArray (by simpa using h)
  exact ⟨n, by rw [applyAll, hn]; rfl⟩

end Repath.LineEdit

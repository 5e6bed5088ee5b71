/-
What one rule makes of one line. A rule with a source that is not blank leaves no record exactly if
the source is not in the line or the target is the same (`rewrite_eq_self_iff`); else its record
holds the line cut at the leftmost occurrences of the source and glued with the target
(`apply_exact`). If the target is not in the line and does not end as it begins, the rule that goes
the other way finds just the targets that were written, and gives the line back (`apply_back`).
-/
import Repath.Proofs.Pass.Chain
import Repath.Proofs.Text.Cuts

namespace Repath.Rule

variable {rule : Rule} {line : Text} {n : Nat}

theorem rewrite_eq_intercalate (rule : Rule) (line : Text) :
    rule.rewrite line = rule.target.intercalate (line.cuts rule.source) :=
  (Text.replace_eq_substitute line rule.source rule.target).symm

/-- A rule leaves a line as it is exactly if its source is not there, or is its target. -/
theorem rewrite_eq_self_iff (hb : rule.source.isBlank = false) :
    rule.rewrite line = line ↔ ¬ rule.source <:+: line ∨ rule.target = rule.source := by
  constructor
  · intro hsame
    by_contra! h
    obtain ⟨hin, hne⟩ := h
    obtain ⟨first, second, rest, hcuts⟩ := Text.exists_leftmostCuts (source_ne_nil hb) hin
    rw [rewrite_eq_intercalate, hcuts.cuts_eq (source_ne_nil hb)] at hsame
    exact hne (Text.eq_of_intercalate_eq (hsame.trans (hcuts.intercalate (source_ne_nil hb)).symm))
  · rintro (habsent | hsame)
    · exact Text.substitute_of_not_infix rule.target habsent
    · rw [rewrite, hsame, Text.substitute_self (source_ne_nil hb)]

/-- A record of a rule that changed line `n`: the line and what it became, with the same pieces
around the source and around the target, and the columns of the first occurrence. -/
structure Marks (rule : Rule) (line : Text) (n : Nat) (r : Replacement) : Prop where
  before : r.before = line
  name : r.rule = rule.name
  number : r.line = n
  pieces : ∃ first second rest, Text.LeftmostCuts rule.source line (first :: second :: rest) ∧
    line = rule.source.intercalate (first :: second :: rest) ∧
    r.after = rule.target.intercalate (first :: second :: rest) ∧ r.columnStart = first.length
  columnEnd : r.columnEnd = r.columnStart + rule.source.length
  spells : (line.drop r.columnStart).take (r.columnEnd - r.columnStart) = rule.source
  first : ∀ k < r.columnStart, (line.drop k).take rule.source.length ≠ rule.source
  changed : r.after ≠ line

theorem marks_record (hb : rule.source.isBlank = false) (hin : rule.source <:+: line)
    (hne : rule.target ≠ rule.source) (n : Nat) : rule.Marks line n (rule.record line n) := by
  have hsource := source_ne_nil hb
  obtain ⟨first, second, rest, hcuts⟩ := Text.exists_leftmostCuts hsource hin
  obtain ⟨⟨behind, hsplit⟩, hleftmost⟩ := hcuts.first_begins
  have hcolumn : rule.firstColumn line = first.length := by
    rw [firstColumn, hcuts.cuts_eq hsource]
    rfl
  have hafter : rule.rewrite line = rule.target.intercalate (first :: second :: rest) := by
    rw [rewrite_eq_intercalate, hcuts.cuts_eq hsource]
  exact {
    before := rfl
    name := rfl
    number := rfl
    pieces := ⟨first, second, rest, hcuts, (hcuts.intercalate hsource).symm, hafter, hcolumn⟩
    columnEnd := rfl
    spells := by
      show (line.drop (rule.firstColumn line)).take
        (rule.firstColumn line + rule.source.length - rule.firstColumn line) = rule.source
      rw [Nat.add_sub_cancel_left, hcolumn, hsplit, List.drop_left, List.take_left]
    first := fun k hk hspells =>
      hleftmost k (hcolumn ▸ hk) (List.prefix_iff_eq_take.2 hspells.symm)
    changed := fun hsame => ((rewrite_eq_self_iff hb).1 hsame).elim (· hin) hne }

/-- What a rule does on a line hangs on three questions: whether its source is blank, whether it
stands in the line, and whether it is the target. -/
theorem apply_eq (rule : Rule) (line : Text) (n : Nat) : rule.apply line n =
    if rule.source.isBlank then .error (.emptySource rule.name)
    else if rule.source <:+: line ∧ rule.target ≠ rule.source then .ok (some (rule.record line n))
    else .ok none := by
  cases hb : rule.source.isBlank with
  | true => rw [if_pos rfl, apply_of_isBlank hb]
  | false =>
    rw [if_neg Bool.false_ne_true]
    split
    · rename_i hchanged
      refine apply_eq_record hb (fun hsame => ?_) n
      exact ((rewrite_eq_self_iff hb).1 hsame).elim (· hchanged.1) hchanged.2
    · rename_i hkept
      refine apply_of_rewrite_eq hb ((rewrite_eq_self_iff hb).2 ?_) n
      exact (not_and_or.1 hkept).imp_right not_not.1

/-- A rule changes a line exactly if its source stands in the line and is not its target. -/
theorem apply_eq_some_iff {r : Replacement} : rule.apply line n = .ok (some r) ↔
    rule.source.isBlank = false ∧ rule.source <:+: line ∧ rule.target ≠ rule.source ∧
      r = rule.record line n := by
  rw [apply_eq]
  by_cases hb : rule.source.isBlank = true
  · simp [hb]
  · by_cases hchanged : rule.source <:+: line ∧ rule.target ≠ rule.source
    · simp [hb, hchanged, eq_comm]
    · rw [if_neg hb, if_neg hchanged]
      exact iff_of_false (by simp) fun h => hchanged ⟨h.2.1, h.2.2.1⟩

theorem marks_of_apply {r : Replacement} (h : rule.apply line n = .ok (some r)) :
    rule.Marks line n r := by
  obtain ⟨hb, hin, hne, rfl⟩ := apply_eq_some_iff.1 h
  exact marks_record hb hin hne n

theorem apply_eq_none_iff : rule.apply line n = .ok none ↔
    rule.source.isBlank = false ∧ (¬ rule.source <:+: line ∨ rule.target = rule.source) := by
  rw [apply_eq]
  by_cases hb : rule.source.isBlank = true
  · simp [hb]
  · by_cases hchanged : rule.source <:+: line ∧ rule.target ≠ rule.source
    · simp [hb, hchanged]
    · rw [if_neg hb, if_neg hchanged]
      exact iff_of_true rfl ⟨by simpa using hb, (not_and_or.1 hchanged).imp_right not_not.1⟩

theorem apply_eq_error_iff : rule.apply line n = .error (.emptySource rule.name) ↔
    rule.source.isBlank = true := by
  rw [apply_eq]
  by_cases hb : rule.source.isBlank = true
  · simp [hb]
  · by_cases hchanged : rule.source <:+: line ∧ rule.target ≠ rule.source <;> simp [hb, hchanged]

/-- A rule fails on a line, under its name, exactly if its source is blank. Else it leaves no record
exactly if the source does not stand in the line or is the target; and in all other cases it leaves
one, of the line cut at the leftmost occurrences of the source and glued with the target, in which
the columns mark the first place where the source is spelled. -/
theorem apply_exact (rule : Rule) (line : Text) (n : Nat) :
    (rule.apply line n = .error (.emptySource rule.name) ↔ rule.source.isBlank = true) ∧
    (rule.apply line n = .ok none ↔ rule.source.isBlank = false ∧
      (¬ rule.source <:+: line ∨ rule.target = rule.source)) ∧
    (rule.source.isBlank = false → rule.source <:+: line → rule.target ≠ rule.source →
      ∃ r, rule.apply line n = .ok (some r) ∧ rule.Marks line n r) :=
  ⟨apply_eq_error_iff, apply_eq_none_iff, fun hb hin hne =>
    ⟨rule.record line n, apply_eq_some_iff.2 ⟨hb, hin, hne, rfl⟩, marks_record hb hin hne n⟩⟩

/-- A source that overlaps itself, behind a scalar of more than one byte, with a longer target that
holds it: of five letters the first two pairs give way. -/
theorem apply_exact_overlapping :
    let rule : Rule := ⟨['r'], "aa".toList, "aab".toList, [], true⟩
    let line : Text := "\"é/aaaaa\"".toList
    rule.source.isBlank = false ∧ rule.source <:+: line ∧ rule.target ≠ rule.source ∧
      ∃ r, rule.apply line 4 = .ok (some r) ∧ rule.Marks line 4 r ∧
        r.after = "\"é/aabaaba\"".toList ∧ (r.columnStart, r.columnEnd) = (3, 5) := by
  intro rule line
  have hin : rule.source <:+: line := by decide
  obtain ⟨r, happly, hmarks⟩ := (apply_exact rule line 4).2.2 (by decide) hin (by decide)
  have hran : rule.apply line 4 =
      .ok (some ⟨line, "\"é/aabaaba\"".toList, ['r'], 4, 3, 5⟩) := by decide
  obtain rfl := Option.some.inj (Except.ok.inj (happly.symm.trans hran))
  exact ⟨by decide, hin, by decide, _, happly, hmarks, rfl, rfl⟩

/-! ## The way back -/

/-- A rule is taken back by the rule from its target to its source, if the target does not stand in
the line and no end of it but the whole is a start of it: from what the rule made of the line, the
other makes the line again, and marks the same first column. -/
theorem apply_back {back : Rule} (hback : back.source = rule.target ∧ back.target = rule.source)
    (hb : rule.target.isBlank = false) (habsent : ¬ rule.target <:+: line)
    (hborder : ¬ Text.Overlaps rule.target rule.target) {r : Replacement}
    (h : rule.apply line n = .ok (some r)) (m : Nat) :
    ∃ r', back.apply r.after m = .ok (some r') ∧ r'.after = line ∧ r'.columnStart = r.columnStart := by
  obtain ⟨hsource, htarget⟩ := hback
  obtain ⟨first, second, rest, hcuts, hline, hafter, hcolumn⟩ := (marks_of_apply h).pieces
  obtain ⟨-, -, hne, -⟩ := apply_eq_some_iff.1 h
  have hbackBlank : back.source.isBlank = false := hsource ▸ hb
  -- no piece holds the target, so the targets between them are all there are
  have hpieces : Text.LeftmostCuts back.source r.after (first :: second :: rest) := by
    rw [hafter, hsource]
    exact Text.leftmostCuts_intercalate hborder (List.cons_ne_nil _ _)
      fun piece hpiece hin => habsent (hin.trans (hcuts.infix_of_mem piece hpiece))
  have hcutsBack := hpieces.cuts_eq (source_ne_nil hbackBlank)
  have hthere : back.source <:+: r.after := hpieces.infix_iff.2 (List.cons_ne_nil _ _)
  have hother : back.target ≠ back.source := by
    rw [hsource, htarget]
    exact hne.symm
  refine ⟨back.record r.after m, apply_eq_some_iff.2 ⟨hbackBlank, hthere, hother, rfl⟩, ?_, ?_⟩
  · show back.rewrite r.after = line
    rw [rewrite_eq_intercalate, hcutsBack, htarget]
    exact hline.symm
  · show back.firstColumn r.after = r.columnStart
    rw [hcolumn, firstColumn, hcutsBack]
    rfl

/-- Three sources in a row that overlap each other, and the target begins with the source's end: the
targets stand side by side, and the letter behind them is the source's. -/
theorem apply_back_adjacent :
    let rule : Rule := ⟨['r'], "aa".toList, "ab".toList, [], true⟩
    let back : Rule := ⟨['s'], "ab".toList, "aa".toList, [], true⟩
    let line : Text := "\"xaaaaaaa\"".toList
    let changed : Text := "\"xabababa\"".toList
    rule.target.isBlank = false ∧ ¬ rule.target <:+: line ∧
      ¬ Text.Overlaps rule.target rule.target ∧
      rule.apply line 0 = .ok (some ⟨line, changed, ['r'], 0, 2, 4⟩) ∧
      ∃ r', back.apply changed 7 = .ok (some r') ∧ r'.after = line ∧ r'.columnStart = 2 := by
  intro rule back line changed
  have habsent : ¬ rule.target <:+: line := by decide
  have hborder : ¬ Text.Overlaps rule.target rule.target := by decide
  have happly : rule.apply line 0 = .ok (some ⟨line, changed, ['r'], 0, 2, 4⟩) := by decide
  have hback : back.source = rule.target ∧ back.target = rule.source := ⟨rfl, rfl⟩
  exact ⟨by decide, habsent, hborder, happly, apply_back hback (by decide) habsent hborder happly 7⟩

end Repath.Rule

/-
What the edits of a pass make of the text that was scanned: every line as the configuration leaves
it (`applyAll_edits_self`). A second pass may find more to do, since a target can bring a source
back; where no source clashes with a target it finds nothing, for no source is left in any line
that looks like an import, not even in those that a target with line feeds has broken up
(`pass_rewrite_settled`).
-/
import Repath.Proofs.Pass.Commit
import Repath.Proofs.Text.Clash
import Repath.Proofs.Text.Lines

namespace Repath

namespace Config

variable {config : Config}

/-- A text is rewritten to itself only if every line is. -/
theorem rewrite_eq_self_iff {text : Text} :
    config.rewrite text = text ↔ ∀ line ∈ text.lines, config.rewriteLine line = line := by
  constructor
  · intro h
    have hlines : text.lines.map config.rewriteLine = text.lines :=
      Text.eq_lines_of_joinLines_eq (List.length_map _) h
    exact List.map_inj_left.1 (hlines.trans (List.map_id text.lines).symm)
  · intro h
    have hlines : text.lines.map config.rewriteLine = text.lines.map id := List.map_congr_left h
    rw [rewrite, hlines, List.map_id, Text.joinLines_lines]

/-- A text on which no rule fires is rewritten to itself. -/
theorem rewrite_of_not_fires (hen : config.enabled = true) {text : Text} (h : ¬ config.Fires text) :
    config.rewrite text = text :=
  rewrite_eq_self_iff.2 fun line hline =>
    rewriteLine_of_not_firesOn hen fun hf => h ⟨line, hline, hf⟩

/-- Rewriting the lines with a record rewrites the text. -/
theorem rewrite_eq_mapIdx (hen : config.enabled = true) (text : Text) :
    config.rewrite text = Text.joinLines (text.lines.mapIdx fun n line =>
      if (config.pass text).Touches n then config.rewriteLine line else line) := by
  unfold rewrite
  congr 1
  refine List.ext_getElem? fun n => ?_
  rw [List.getElem?_map, List.getElem?_mapIdx]
  cases hline : text.lines[n]? with
  | none => rfl
  | some line =>
    simp only [Option.map_some, Option.some.injEq]
    split
    · rfl
    · rename_i htouch
      refine rewriteLine_of_not_firesOn hen fun hf => htouch ?_
      exact (Pass.touches_iff config text n).2 ⟨line, hline, hf⟩

/-- The edits of a pass apply to the text that was scanned and rewrite it. -/
theorem applyAll_edits_self (hen : config.enabled = true) (text : Text) :
    LineEdit.applyAll (config.pass text).edits text = .ok (config.rewrite text) := by
  rw [rewrite_eq_mapIdx hen]
  exact Pass.applyAll_edits fun n hmoved => hmoved.2 rfl

end Config

/-! ## Sources that are gone -/

namespace Pass

/-- No source of the rules clashes with a target of the rules, those of rules with a blank source
apart. -/
def Separate (rules : List Rule) : Prop :=
  ∀ i ∈ rules, ∀ j ∈ rules, i.source.isBlank = false → j.source.isBlank = false →
    ¬ Text.Clashes i.source j.target

instance (rules : List Rule) : Decidable (Separate rules) :=
  inferInstanceAs (Decidable (∀ i ∈ rules, ∀ j ∈ rules, i.source.isBlank = false →
    j.source.isBlank = false → ¬ Text.Clashes i.source j.target))

/-- A text that is not in the line and clashes with no target does not come up in the chain. -/
theorem not_infix_chained {s : Text} :
    ∀ {rules : List Rule} {line : Text},
      (∀ rule ∈ rules, rule.source.isBlank = false → ¬ Text.Clashes s rule.target) →
      ¬ s <:+: line → ¬ s <:+: chained rules line
  | [], _, _, hline => hline
  | rule :: rules, line, h, hline => by
    have hrules := fun r hr => h r (List.mem_cons_of_mem rule hr)
    cases hb : rule.source.isBlank with
    | true =>
      rw [chained_cons_of_isBlank hb]
      exact not_infix_chained hrules hline
    | false =>
      rw [chained_cons hb]
      exact not_infix_chained hrules
        (Text.not_infix_substitute (h rule (List.mem_cons_self ..) hb) (.inr hline))

/-- The chain removes every source that clashes with no target: its own rule takes it out, and the
rules behind do not bring it back. -/
theorem source_not_infix_chained {source : Text} :
    ∀ {rules : List Rule} {line : Text},
      (∀ rule ∈ rules, rule.source.isBlank = false → ¬ Text.Clashes source rule.target) →
      (∃ rule ∈ rules, rule.source.isBlank = false ∧ rule.source = source) →
      ¬ source <:+: chained rules line
  | rule :: rules, line, h, ⟨r, hr, hb, hsource⟩ => by
    have hrules := fun r hr => h r (List.mem_cons_of_mem rule hr)
    rcases List.mem_cons.1 hr with rfl | hr
    · rw [chained_cons hb]
      exact not_infix_chained hrules
        (Text.not_infix_substitute (h r (List.mem_cons_self ..) hb) (.inl hsource.symm))
    · cases hblank : rule.source.isBlank with
      | true =>
        rw [chained_cons_of_isBlank hblank]
        exact source_not_infix_chained hrules ⟨r, hr, hb, hsource⟩
      | false =>
        rw [chained_cons hblank]
        exact source_not_infix_chained hrules ⟨r, hr, hb, hsource⟩

/-- No rule fires on a line without any of the sources. -/
theorem not_fires_of_not_infix :
    ∀ {rules : List Rule} {line : Text},
      (∀ rule ∈ rules, rule.source.isBlank = false → ¬ rule.source <:+: line) → ¬ Fires rules line
  | [], line, _ => not_fires_nil line
  | rule :: rules, line, h => by
    have hrules := fun r hr => h r (List.mem_cons_of_mem rule hr)
    cases hb : rule.source.isBlank with
    | true =>
      rw [fires_cons_of_isBlank hb]
      exact not_fires_of_not_infix hrules
    | false =>
      have hsame : rule.rewrite line = line :=
        Text.substitute_of_not_infix rule.target (h rule (List.mem_cons_self ..) hb)
      rw [fires_cons hb, hsame]
      rintro (hne | hfires)
      · exact hne rfl
      · exact not_fires_of_not_infix hrules hfires

theorem hasChanges_eq_false_iff (config : Config) (text : Text) :
    (config.pass text).hasChanges = false ↔ (config.pass text).replacements = [] := by
  show (!(config.pass text).replacements.isEmpty) = false ↔ _
  simp

end Pass

namespace Config

variable {config : Config}

/-- Every line of a rewritten text stands in a line as the configuration leaves it, and is that
line if no rule was tried on it. -/
theorem mem_lines_rewrite {text line : Text} (h : line ∈ (config.rewrite text).lines) :
    ∃ scanned ∈ text.lines, line <:+: config.rewriteLine scanned ∧
      (ImportLine.accepts scanned = false → line = scanned) := by
  have hne : text.lines.map config.rewriteLine ≠ [] := by
    simpa using Text.lines_ne_nil text
  rw [rewrite, Text.lines_joinLines_eq_flatMap hne, List.mem_flatMap] at h
  obtain ⟨left, hleft, hline⟩ := h
  obtain ⟨scanned, hscanned, rfl⟩ := List.mem_map.1 hleft
  refine ⟨scanned, hscanned, Text.infix_of_mem_lines hline, fun hacc => ?_⟩
  rw [rewriteLine, if_neg (by simp [hacc]),
    Text.lines_of_newline_notMem (Text.newline_notMem_of_mem_lines hscanned)] at hline
  exact List.mem_singleton.1 hline

/-- In a rewritten text, no line that looks like an import holds a source, if no source clashes
with a target. -/
theorem source_not_infix_rewrite (h : Pass.Separate config.enabledRules) {text line : Text}
    (hline : line ∈ (config.rewrite text).lines) (hacc : ImportLine.accepts line = true)
    {rule : Rule} (hrule : rule ∈ config.enabledRules) (hb : rule.source.isBlank = false) :
    ¬ rule.source <:+: line := by
  obtain ⟨scanned, -, hinfix, hskipped⟩ := mem_lines_rewrite hline
  cases hscan : ImportLine.accepts scanned with
  | false =>
    -- a line on which no rule was tried is still none that looks like an import
    rw [hskipped hscan, hscan] at hacc
    cases hacc
  | true =>
    rw [rewriteLine, if_pos hscan] at hinfix
    have hgone : ¬ rule.source <:+: Pass.chained config.enabledRules scanned :=
      Pass.source_not_infix_chained (fun j hj => h rule hrule j hj hb) ⟨rule, hrule, hb, rfl⟩
    exact fun hin => hgone (hin.trans hinfix)

/-- Where no source of an enabled rule clashes with a target of one, a pass settles every text. Its
edits apply; no line of the text afterwards that looks like an import holds a source; and a pass
over that text has no records and no changes. -/
theorem pass_rewrite_settled (hen : config.enabled = true)
    (h : Pass.Separate config.enabledRules) (text : Text) :
    ∃ rewritten, LineEdit.applyAll (config.pass text).edits text = .ok rewritten ∧
      (∀ line ∈ rewritten.lines, ImportLine.accepts line = true →
        ∀ rule ∈ config.enabledRules, rule.source.isBlank = false → ¬ rule.source <:+: line) ∧
      (config.pass rewritten).replacements = [] ∧ (config.pass rewritten).hasChanges = false := by
  have hgone : ∀ line ∈ (config.rewrite text).lines, ImportLine.accepts line = true →
      ∀ rule ∈ config.enabledRules, rule.source.isBlank = false → ¬ rule.source <:+: line :=
    fun _ hline hacc _ hrule hb => source_not_infix_rewrite h hline hacc hrule hb
  have hrests : ¬ config.Fires (config.rewrite text) := fun ⟨line, hline, _, hacc, hfires⟩ =>
    Pass.not_fires_of_not_infix (hgone line hline hacc) hfires
  have hsame : (config.pass (config.rewrite text)).hasChanges = false := by
    rw [← Bool.not_eq_true, Pass.hasChanges_iff]
    exact hrests
  exact ⟨config.rewrite text, applyAll_edits_self hen text, hgone,
    (Pass.hasChanges_eq_false_iff config _).1 hsame, hsame⟩

/-- A target with a line feed breaks an import in two, and one rule works on what another left. -/
theorem pass_rewrite_settled_broken :
    let config : Config := { rules :=
      [⟨['r'], ['a', 'a'], "b\"\n\"b".toList, [], true⟩, ⟨['s'], ['c'], ['d', 'd'], [], true⟩] }
    let text : Text := "x\n\"aaac\"\naa".toList
    config.enabled = true ∧ Pass.Separate config.enabledRules ∧
      ∃ rewritten, LineEdit.applyAll (config.pass text).edits text = .ok rewritten ∧
        rewritten = "x\n\"b\"\n\"badd\"\naa".toList ∧ (config.pass rewritten).hasChanges = false := by
  intro config text
  have hseparate : Pass.Separate config.enabledRules := by decide
  obtain ⟨rewritten, hedited, -, -, hsame⟩ := pass_rewrite_settled rfl hseparate text
  have hran : LineEdit.applyAll (config.pass text).edits text =
      .ok "x\n\"b\"\n\"badd\"\naa".toList := by decide
  exact ⟨rfl, hseparate, rewritten, hedited, Except.ok.inj (hedited.symm.trans hran), hsame⟩

end Config

end Repath

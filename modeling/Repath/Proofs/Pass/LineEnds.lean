/-
Passes over texts whose lines end in a carriage return and a line feed. If no source holds a
carriage return, the one at the end of a line goes through the chain of rules untouched
(`chain_append_lineEnd`), and the line is tried or skipped as without it; so the pass makes the
same records with the same columns, each with the end of its line, and if no target breaks a line
the edits rewrite the text as they rewrite the text with bare line feeds (`pass_crlf`).
-/
import Repath.Proofs.Pass.Rewrite
import Repath.Proofs.ImportLine
import Repath.Proofs.Text.LineEnds
import Repath.Proofs.Text.Separator

namespace Repath

/-- The record of a line that has its line end with it, in a text of `count` lines. -/
def Replacement.crlf (count : Nat) (r : Replacement) : Replacement :=
  { r with
    before := r.before ++ Text.lineEnd count r.line
    after := r.after ++ Text.lineEnd count r.line }

/-- The event of a line that has its line end with it. -/
def RuleEvent.crlf (count : Nat) : RuleEvent → RuleEvent
  | fired r => fired (r.crlf count)
  | failed f => failed f

/-- The end of a line has no part in whether it looks like an import. -/
theorem ImportLine.accepts_append_lineEnd (line : Text) (count n : Nat) :
    accepts (line ++ Text.lineEnd count n) = accepts line :=
  accepts_append_of_isBlank line (Text.isBlank_lineEnd count n)

/-! ## One rule -/

namespace Rule

variable {rule : Rule}

/-- A rule whose source holds no carriage return leaves the end of a line as it is. -/
theorem rewrite_append_lineEnd (hb : rule.source.isBlank = false) (h : '\r' ∉ rule.source)
    (line : Text) (count n : Nat) :
    rule.rewrite (line ++ Text.lineEnd count n) = rule.rewrite line ++ Text.lineEnd count n := by
  unfold Text.lineEnd
  split
  · have hsplit := Text.substitute_append_separator (source_ne_nil hb) h rule.target line []
    rwa [Text.substitute] at hsplit
  · rw [List.append_nil, List.append_nil]

/-- A rule that changes a line has its source in it. -/
theorem source_infix_of_rewrite_ne {line : Text} (h : rule.rewrite line ≠ line) :
    rule.source <:+: line := by
  by_contra hnot
  exact h (Text.substitute_of_not_infix rule.target hnot)

theorem record_append_lineEnd (hb : rule.source.isBlank = false) (h : '\r' ∉ rule.source)
    {line : Text} (hne : rule.rewrite line ≠ line) (count n : Nat) :
    rule.record (line ++ Text.lineEnd count n) n = (rule.record line n).crlf count := by
  have hcolumn : rule.firstColumn (line ++ Text.lineEnd count n) = rule.firstColumn line := by
    rw [firstColumn, firstColumn, Text.head?_cuts_append (source_ne_nil hb)
      (source_infix_of_rewrite_ne hne)]
  rw [record, record, hcolumn, rewrite_append_lineEnd hb h]
  rfl

/-- A rule whose target holds no line feed breaks no line. -/
theorem newline_notMem_rewrite (h : '\n' ∉ rule.target) {line : Text} (hline : '\n' ∉ line) :
    '\n' ∉ rule.rewrite line :=
  fun hmem => (Text.mem_of_mem_substitute hmem).elim h hline

end Rule

/-! ## Chains -/

namespace Pass

/-- What the rules do on a line with its end is what they do on the line, each record with the end
of the line. -/
theorem chain_append_lineEnd (count n : Nat) :
    ∀ {rules : List Rule}, (∀ rule ∈ rules, '\r' ∉ rule.source) → ∀ line : Text,
      chain n (line ++ Text.lineEnd count n) rules =
        (chain n line rules).map (RuleEvent.crlf count)
  | [], _, _ => rfl
  | rule :: rules, h, line => by
    have hrules := fun r hr => h r (List.mem_cons_of_mem rule hr)
    cases hb : rule.source.isBlank with
    | true =>
      rw [chain_cons_of_isBlank hb, chain_cons_of_isBlank hb]
      exact congrArg _ (chain_append_lineEnd count n hrules line)
    | false =>
      have hsource := h rule (List.mem_cons_self ..)
      have hend := Rule.rewrite_append_lineEnd hb hsource line count n
      by_cases hsame : rule.rewrite line = line
      · have hsame' : rule.rewrite (line ++ Text.lineEnd count n) = line ++ Text.lineEnd count n := by
          rw [hend, hsame]
        rw [chain_cons_of_rewrite_eq hb hsame, chain_cons_of_rewrite_eq hb hsame']
        exact chain_append_lineEnd count n hrules line
      · have hne : rule.rewrite (line ++ Text.lineEnd count n) ≠ line ++ Text.lineEnd count n := by
          rw [hend]
          exact fun heq => hsame (List.append_cancel_right heq)
        rw [chain_cons_of_rewrite_ne hb hsame, chain_cons_of_rewrite_ne hb hne,
          Rule.record_append_lineEnd hb hsource hsame, hend]
        exact congrArg _ (chain_append_lineEnd count n hrules (rule.rewrite line))

theorem chained_append_lineEnd (count n : Nat) :
    ∀ {rules : List Rule}, (∀ rule ∈ rules, '\r' ∉ rule.source) → ∀ line : Text,
      chained rules (line ++ Text.lineEnd count n) = chained rules line ++ Text.lineEnd count n
  | [], _, _ => rfl
  | rule :: rules, h, line => by
    have hrules := fun r hr => h r (List.mem_cons_of_mem rule hr)
    cases hb : rule.source.isBlank with
    | true =>
      rw [chained_cons_of_isBlank hb, chained_cons_of_isBlank hb]
      exact chained_append_lineEnd count n hrules line
    | false =>
      rw [chained_cons hb, chained_cons hb,
        Rule.rewrite_append_lineEnd hb (h rule (List.mem_cons_self ..))]
      exact chained_append_lineEnd count n hrules (rule.rewrite line)

theorem newline_notMem_chained :
    ∀ {rules : List Rule}, (∀ rule ∈ rules, '\n' ∉ rule.target) → ∀ {line : Text}, '\n' ∉ line →
      '\n' ∉ chained rules line
  | [], _, _, hline => hline
  | rule :: rules, h, line, hline => by
    have hrules := fun r hr => h r (List.mem_cons_of_mem rule hr)
    cases hb : rule.source.isBlank with
    | true =>
      rw [chained_cons_of_isBlank hb]
      exact newline_notMem_chained hrules hline
    | false =>
      rw [chained_cons hb]
      exact newline_notMem_chained hrules
        (Rule.newline_notMem_rewrite (h rule (List.mem_cons_self ..)) hline)

/-- What the rules do on a text with carriage returns is what they do on the text, each record with
the end of its line. -/
theorem trail_crlf {rules : List Rule} (h : ∀ rule ∈ rules, '\r' ∉ rule.source) (text : Text) :
    trail rules text.crlf = (trail rules text).map (RuleEvent.crlf text.lines.length) := by
  unfold trail
  rw [Text.lines_crlf, Text.zipIdx_mapIdx, List.flatMap_map, List.map_flatMap]
  refine List.flatMap_congr fun (line, n) _ => ?_
  simp only [ImportLine.accepts_append_lineEnd, chain_append_lineEnd _ _ h]
  split <;> rfl

end Pass

namespace Config

variable {config : Config}

theorem trail_crlf (h : ∀ rule ∈ config.enabledRules, '\r' ∉ rule.source) (text : Text) :
    config.trail text.crlf = (config.trail text).map (RuleEvent.crlf text.lines.length) := by
  unfold trail
  split
  · exact Pass.trail_crlf h text
  · rfl

theorem rewriteLine_append_lineEnd (h : ∀ rule ∈ config.enabledRules, '\r' ∉ rule.source)
    (line : Text) (count n : Nat) :
    config.rewriteLine (line ++ Text.lineEnd count n) =
      config.rewriteLine line ++ Text.lineEnd count n := by
  rw [rewriteLine, ImportLine.accepts_append_lineEnd, Pass.chained_append_lineEnd count n h,
    rewriteLine]
  split <;> rfl

/-- Rewriting a text with carriage returns gives the rewritten text with carriage returns. -/
theorem rewrite_crlf (hsource : ∀ rule ∈ config.enabledRules, '\r' ∉ rule.source)
    (htarget : ∀ rule ∈ config.enabledRules, '\n' ∉ rule.target) (text : Text) :
    config.rewrite text.crlf = (config.rewrite text).crlf := by
  have hwhole : ∀ line ∈ text.lines.map config.rewriteLine, '\n' ∉ line := by
    intro line hline
    obtain ⟨scanned, hscanned, rfl⟩ := List.mem_map.1 hline
    have hfeed := Text.newline_notMem_of_mem_lines hscanned
    unfold rewriteLine
    split
    · exact Pass.newline_notMem_chained htarget hfeed
    · exact hfeed
  have hjoined := Text.joinLines_mapIdx_lineEnd hwhole
  rw [rewrite, rewrite, ← hjoined, Text.lines_crlf]
  congr 1
  refine List.ext_getElem? fun n => ?_
  simp [Function.comp_def, rewriteLine_append_lineEnd hsource]

/-- If no source of an enabled rule holds a carriage return and no target a line feed, line ends
make no difference to a pass. Its edits make of a text with carriage returns what they make of the
text, with carriage returns; it finds changes in both or in neither, and fails on the same lines;
and its records are the same but for the line end that they have before and after. -/
theorem pass_crlf (hsource : ∀ rule ∈ config.enabledRules, '\r' ∉ rule.source)
    (htarget : ∀ rule ∈ config.enabledRules, '\n' ∉ rule.target) (text : Text) :
    (∃ edited, LineEdit.applyAll (config.pass text).edits text = .ok edited ∧
      LineEdit.applyAll (config.pass text.crlf).edits text.crlf = .ok edited.crlf) ∧
    (config.pass text.crlf).hasChanges = (config.pass text).hasChanges ∧
    (config.pass text.crlf).failures = (config.pass text).failures ∧
    (config.pass text.crlf).replacements =
      (config.pass text).replacements.map (Replacement.crlf text.lines.length) := by
  have htrail := trail_crlf hsource text
  have hrecords : (config.pass text.crlf).replacements =
      (config.pass text).replacements.map (Replacement.crlf text.lines.length) := by
    show (config.trail text.crlf).filterMap _ = ((config.trail text).filterMap _).map _
    rw [htrail, List.filterMap_map, List.map_filterMap]
    exact List.filterMap_congr fun event _ => by cases event <;> rfl
  refine ⟨?_, ?_, ?_, hrecords⟩
  · cases hen : config.enabled with
    | true =>
      refine ⟨config.rewrite text, applyAll_edits_self hen text, ?_⟩
      rw [← rewrite_crlf hsource htarget]
      exact applyAll_edits_self hen text.crlf
    | false =>
      rw [pass_of_disabled hen, pass_of_disabled hen]
      exact ⟨text, LineEdit.applyAll_nil text, LineEdit.applyAll_nil text.crlf⟩
  · show (!(config.pass text.crlf).replacements.isEmpty) = !(config.pass text).replacements.isEmpty
    rw [hrecords, List.isEmpty_map]
  · show (config.trail text.crlf).filterMap _ = (config.trail text).filterMap _
    rw [htrail, List.filterMap_map]
    exact List.filterMap_congr fun event _ => by cases event <;> rfl

/-- A source at the end of a line, a rule that fails, and a last line without a line feed. -/
theorem pass_crlf_at_line_end :
    let config : Config := { rules :=
      [⟨['e'], [' '], ['x'], [], true⟩, ⟨['r'], ['a', '"'], ['b', '"', '\r'], [], true⟩] }
    let text : Text := "\"aa\"\n\n\"a\"".toList
    (∀ rule ∈ config.enabledRules, '\r' ∉ rule.source) ∧
      (∀ rule ∈ config.enabledRules, '\n' ∉ rule.target) ∧
      LineEdit.applyAll (config.pass text.crlf).edits text.crlf =
        .ok "\"ab\"\r\r\n\r\n\"b\"\r".toList ∧
      (config.pass text.crlf).failures = (config.pass text).failures ∧
      (config.pass text.crlf).replacements =
        (config.pass text).replacements.map (Replacement.crlf 3) := by
  intro config text
  have hsource : ∀ rule ∈ config.enabledRules, '\r' ∉ rule.source := by decide
  have htarget : ∀ rule ∈ config.enabledRules, '\n' ∉ rule.target := by decide
  obtain ⟨⟨edited, hedited, hcrlf⟩, -, hfailures, hrecords⟩ := pass_crlf hsource htarget text
  have hran : LineEdit.applyAll (config.pass text).edits text =
      .ok "\"ab\"\r\n\n\"b\"\r".toList := by decide
  obtain rfl := Except.ok.inj (hedited.symm.trans hran)
  exact ⟨hsource, htarget, hcrlf, hfailures, hrecords⟩

end Config

end Repath

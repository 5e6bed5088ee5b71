/-
A trial of a rule shows what the rule does to a file. A trial replaces in the whole text at once,
while a pass cuts the text into lines, skips those that look like no import, and hands in edits; the
two agree on every text in which the source stands only in import lines and not across line ends
(`trial_eq_pass`).
-/
import Repath.Proofs.Pass.Rewrite
import Repath.Proofs.Text.Separator
import Repath.Trial

namespace Repath

namespace Rule

variable {rule : Rule}

theorem trial_of_not_isBlank (h : rule.source.isBlank = false) (text : Text) :
    rule.trial text = { success := true, result := rule.rewrite text } := by
  rw [trial, if_neg (by simp [h]), Text.replace_eq_substitute, rewrite]

/-- A source without a line feed is replaced line by line. -/
theorem rewrite_eq_joinLines (h : rule.source.isBlank = false) (hline : '\n' ∉ rule.source)
    (text : Text) : rule.rewrite text = Text.joinLines (text.lines.map rule.rewrite) := by
  have hjoined := Text.substitute_joinLines (source_ne_nil h) hline rule.target text.lines
  rwa [Text.joinLines_lines] at hjoined

end Rule

namespace Config

variable {config : Config} {rule : Rule}

/-- The rules that take part are one rule and no other. -/
def OnlyRule (config : Config) (rule : Rule) : Prop :=
  config.enabled = true ∧ config.rules = [{ rule with enabled := true }]

instance (config : Config) (rule : Rule) : Decidable (config.OnlyRule rule) :=
  inferInstanceAs (Decidable (config.enabled = true ∧ config.rules = [{ rule with enabled := true }]))

/-- The only rule rewrites the lines that look like an import. -/
theorem rewriteLine_of_onlyRule (honly : config.OnlyRule rule) (h : rule.source.isBlank = false)
    (line : Text) :
    config.rewriteLine line = if ImportLine.accepts line then rule.rewrite line else line := by
  have hrules : config.enabledRules = [{ rule with enabled := true }] := by
    rw [enabledRules, honly.2]
    rfl
  have hblank : ({ rule with enabled := true } : Rule).source.isBlank = false := h
  rw [rewriteLine, hrules, Pass.chained_cons hblank]
  rfl

/-- The trial of a rule on a text succeeds and gives what a pass with no other rule makes of the
text, if the source holds no line feed and every line with the source looks like an import. -/
theorem trial_eq_pass {text : Text} (honly : config.OnlyRule rule)
    (hb : rule.source.isBlank = false) (hline : '\n' ∉ rule.source)
    (haccepts : ∀ line ∈ text.lines, rule.source <:+: line → ImportLine.accepts line = true) :
    ∃ edited, LineEdit.applyAll (config.pass text).edits text = .ok edited ∧
      rule.trial text = { success := true, result := edited } := by
  refine ⟨config.rewrite text, applyAll_edits_self honly.1 text, ?_⟩
  have hlines : ∀ line ∈ text.lines, rule.rewrite line = config.rewriteLine line := by
    intro line hmem
    rw [rewriteLine_of_onlyRule honly hb]
    split
    · rfl
    · rename_i hskipped
      -- a line that is skipped holds no source
      exact Text.substitute_of_not_infix rule.target fun hin => hskipped (haccepts line hmem hin)
  rw [Rule.trial_of_not_isBlank hb, Rule.rewrite_eq_joinLines hb hline, rewrite,
    List.map_congr_left hlines]

/-- A source that overlaps itself, and a target with a line feed, beside a line that is skipped. -/
theorem trial_eq_pass_overlapping :
    let rule : Rule := ⟨['r'], ['a', 'a'], ['b', '\n'], [], false⟩
    let config : Config := { rules := [{ rule with enabled := true }] }
    let text : Text := "\"aaaaa\"\na b\nimport \"aa\"".toList
    config.OnlyRule rule ∧ rule.source.isBlank = false ∧ '\n' ∉ rule.source ∧
      (∀ line ∈ text.lines, rule.source <:+: line → ImportLine.accepts line = true) ∧
      ∃ edited, LineEdit.applyAll (config.pass text).edits text = .ok edited ∧
        rule.trial text = { success := true, result := edited } ∧
        edited = "\"b\nb\na\"\na b\nimport \"b\n\"".toList := by
  intro rule config text
  have honly : config.OnlyRule rule := by decide
  have haccepts : ∀ line ∈ text.lines, rule.source <:+: line → ImportLine.accepts line = true := by
    decide
  obtain ⟨edited, hedited, htrial⟩ := trial_eq_pass honly (by decide) (by decide) haccepts
  have hran : LineEdit.applyAll (config.pass text).edits text =
      .ok "\"b\nb\na\"\na b\nimport \"b\n\"".toList := by decide
  exact ⟨honly, by decide, by decide, haccepts, edited, hedited, htrial,
    Except.ok.inj (hedited.symm.trans hran)⟩

end Config

end Repath

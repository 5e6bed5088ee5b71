/-
Line numbers before and after a commit. Edits, reports and the check for stale lines all address
lines by their numbers, and an edit is meant to hold one line. A target may hold a line feed though,
and then an edit can hold several lines and move all that is behind it. The lines keep their numbers
exactly if no line on which a rule fires is left with a line feed (`keepsLines_iff`); where no target
holds one that is so for every text.
-/
import Repath.Proofs.Pass.LineEnds

namespace Repath

namespace Config

/-- A rule fires on the line, and the rules leave a line feed in it. -/
def Breaks (config : Config) (line : Text) : Prop :=
  config.FiresOn line ∧ '\n' ∈ config.rewriteLine line

/-- The edits of a pass over a text, which make `edited` of it, keep the numbers of its lines: each
edit holds one line, there are as many lines as before, and a line is found at its number, as it
was or, if it was edited, as its edit has it. -/
structure KeepsLines (config : Config) (text edited : Text) : Prop where
  oneLine : ∀ edit ∈ (config.pass text).edits, '\n' ∉ edit.text
  count : edited.lines.length = text.lines.length
  unedited : ∀ n, (∀ edit ∈ (config.pass text).edits, edit.line ≠ n) →
    edited.lines[n]? = text.lines[n]?
  replayed : ∀ edit ∈ (config.pass text).edits, edited.lines[edit.line]? = some edit.text

/-- The lines of a text as the edits of the pass over it leave them. Each is one line of the text
afterwards only if it holds no line feed. -/
def leftLines (config : Config) (text : Text) : List Text :=
  text.lines.mapIdx fun n line =>
    if (config.pass text).Touches n then config.rewriteLine line else line

variable {config : Config} {text : Text}

theorem applyAll_edits_leftLines (config : Config) (text : Text) :
    LineEdit.applyAll (config.pass text).edits text =
      .ok (Text.joinLines (config.leftLines text)) :=
  Pass.applyAll_edits fun _ hmoved => hmoved.2 rfl

theorem length_leftLines (config : Config) (text : Text) :
    (config.leftLines text).length = text.lines.length :=
  List.length_mapIdx

theorem leftLines_ne_nil (config : Config) (text : Text) : config.leftLines text ≠ [] := by
  rw [← List.length_pos_iff, length_leftLines]
  exact List.length_pos_iff.2 (Text.lines_ne_nil text)

/-- An edit holds the line that is left at its number. -/
theorem leftLines_of_mem_edits {edit : LineEdit} (h : edit ∈ (config.pass text).edits) :
    (config.leftLines text)[edit.line]? = some edit.text := by
  obtain ⟨change, hchange, rfl⟩ := Pass.mem_edits_iff.1 h
  obtain ⟨hline, -, hafter⟩ := (Pass.mem_lineChanges_iff config text change).1 hchange
  have htouch : (config.pass text).Touches change.line :=
    (Pass.touches_iff_change _ _).2 ⟨change, hchange, rfl⟩
  show (config.leftLines text)[change.line]? = some change.after
  rw [leftLines, List.getElem?_mapIdx, hline, Option.map_some, if_pos htouch, ← hafter]

/-- A line without an edit is left as it is. -/
theorem leftLines_of_not_edited {n : Nat} (h : ∀ edit ∈ (config.pass text).edits, edit.line ≠ n) :
    (config.leftLines text)[n]? = text.lines[n]? := by
  have htouch : ¬ (config.pass text).Touches n := by
    rw [← Pass.mem_edits_line_iff, List.mem_map]
    rintro ⟨edit, hedit, hn⟩
    exact h edit hedit hn
  rw [leftLines, List.getElem?_mapIdx]
  simp only [if_neg htouch, Option.map_id']

/-- The lines are left without line feeds exactly if no line breaks. -/
theorem newline_notMem_leftLines_iff :
    (∀ line ∈ config.leftLines text, '\n' ∉ line) ↔ ∀ line ∈ text.lines, ¬ config.Breaks line := by
  constructor
  · rintro h line hline ⟨hfires, hbroken⟩
    obtain ⟨n, hn⟩ := List.getElem?_of_mem hline
    have htouch := (Pass.touches_iff config text n).2 ⟨line, hn, hfires⟩
    refine h (config.rewriteLine line) (List.mem_of_getElem? (i := n) ?_) hbroken
    rw [leftLines, List.getElem?_mapIdx, hn, Option.map_some, if_pos htouch]
  · intro h left hleft hbroken
    obtain ⟨n, hn⟩ := List.getElem?_of_mem hleft
    rw [leftLines, List.getElem?_mapIdx, Option.map_eq_some_iff] at hn
    obtain ⟨line, hline, rfl⟩ := hn
    have hmem := List.mem_of_getElem? hline
    split at hbroken
    · rename_i htouch
      obtain ⟨scanned, hscanned, hfires⟩ := (Pass.touches_iff config text n).1 htouch
      obtain rfl := Option.some.inj (hline.symm.trans hscanned)
      exact h line hmem ⟨hfires, hbroken⟩
    · exact Text.newline_notMem_of_mem_lines hmem hbroken

/-- Where no enabled rule has a target with a line feed, no line breaks. -/
theorem not_breaks_of_targets (h : ∀ rule ∈ config.enabledRules, '\n' ∉ rule.target) {line : Text}
    (hline : line ∈ text.lines) : ¬ config.Breaks line := by
  rintro ⟨⟨-, hacc, -⟩, hbroken⟩
  rw [rewriteLine, if_pos hacc] at hbroken
  exact Pass.newline_notMem_chained h (Text.newline_notMem_of_mem_lines hline) hbroken

/-- Lines that are left without line feeds are the lines of the text afterwards. -/
theorem keepsLines_of_not_breaks (h : ∀ line ∈ text.lines, ¬ config.Breaks line) :
    config.KeepsLines text (Text.joinLines (config.leftLines text)) := by
  have hplain := newline_notMem_leftLines_iff.2 h
  have hlines : (Text.joinLines (config.leftLines text)).lines = config.leftLines text :=
    Text.lines_joinLines hplain (leftLines_ne_nil config text)
  refine ⟨fun edit hedit => ?_, ?_, fun n hn => ?_, fun edit hedit => ?_⟩
  · exact hplain edit.text (List.mem_of_getElem? (leftLines_of_mem_edits hedit))
  · rw [hlines, length_leftLines]
  · rw [hlines, leftLines_of_not_edited hn]
  · rw [hlines, leftLines_of_mem_edits hedit]

/-- The edits of any pass apply to the text that was scanned. The lines afterwards are those of what
each line is left as, in order, so there are never fewer. The lines keep their numbers exactly if no
line breaks, and already the count of the lines tells; and no line of any text breaks if no enabled
rule has a target with a line feed. -/
theorem keepsLines_iff (config : Config) (text : Text) :
    ∃ edited, LineEdit.applyAll (config.pass text).edits text = .ok edited ∧
      edited.lines = (config.leftLines text).flatMap Text.lines ∧
      text.lines.length ≤ edited.lines.length ∧
      (config.KeepsLines text edited ↔ ∀ line ∈ text.lines, ¬ config.Breaks line) ∧
      (edited.lines.length = text.lines.length ↔ ∀ line ∈ text.lines, ¬ config.Breaks line) ∧
      ((∀ rule ∈ config.enabledRules, '\n' ∉ rule.target) →
        ∀ line ∈ text.lines, ¬ config.Breaks line) := by
  have hne := leftLines_ne_nil config text
  have hlines := Text.lines_joinLines_eq_flatMap hne
  have hcount : (Text.joinLines (config.leftLines text)).lines.length = text.lines.length ↔
      ∀ line ∈ text.lines, ¬ config.Breaks line := by
    rw [← newline_notMem_leftLines_iff, ← Text.length_lines_joinLines_eq_iff hne, length_leftLines]
  refine ⟨_, applyAll_edits_leftLines config text, hlines, ?_,
    ⟨fun h => hcount.1 h.count, keepsLines_of_not_breaks⟩, hcount,
    fun h _ hline => not_breaks_of_targets h hline⟩
  rw [hlines, ← length_leftLines config text]
  exact Text.length_le_flatMap_lines (config.leftLines text)

/-- Two rules in a row on the second of three lines, which stay three. -/
theorem keepsLines_iff_chained :
    let config : Config := { rules :=
      [⟨['r'], ['a'], "bb".toList, [], true⟩, ⟨['s'], "bb".toList, [], [], true⟩] }
    let text : Text := "x\n\"ac\"\na".toList
    (∀ rule ∈ config.enabledRules, '\n' ∉ rule.target) ∧
      (config.pass text).edits = [⟨1, "\"c\"".toList⟩] ∧
      config.KeepsLines text "x\n\"c\"\na".toList := by
  intro config text
  have htargets : ∀ rule ∈ config.enabledRules, '\n' ∉ rule.target := by decide
  obtain ⟨edited, hedited, -, -, hkeeps, -, hquiet⟩ := keepsLines_iff config text
  have hran : LineEdit.applyAll (config.pass text).edits text = .ok "x\n\"c\"\na".toList := by decide
  obtain rfl := Except.ok.inj (hedited.symm.trans hran)
  exact ⟨htargets, by decide, hkeeps.2 (hquiet htargets)⟩

/-- A rule that is read from settings with a line feed in its target: its edit holds two lines, and
the line behind is no longer found at its number. -/
theorem not_keepsLines_broken :
    let entry := Json.object [(Rule.enabledKey, .bool true), (Rule.sourceKey, .string ['a']),
      (Rule.nameKey, .string ['r']), (Rule.targetKey, .string "x\ny".toList)]
    let document := Json.object [(rulesKey, .array [entry])]
    let config : Config := { rules := [⟨['r'], ['a'], "x\ny".toList, [], true⟩] }
    let text : Text := "\"a\"\nb".toList
    let edited : Text := "\"x\ny\"\nb".toList
    Settings.config? document = .ok config ∧
      (config.pass text).edits = [⟨0, "\"x\ny\"".toList⟩] ∧
      LineEdit.applyAll (config.pass text).edits text = .ok edited ∧
      text.lines[1]? = some ['b'] ∧ edited.lines[1]? = some "y\"".toList ∧
      ¬ config.KeepsLines text edited := by
  intro entry document config text edited
  have hcount : edited.lines.length ≠ text.lines.length := by decide
  exact ⟨by decide, by decide, by decide, by decide, by decide, fun h => hcount h.count⟩

end Config

end Repath

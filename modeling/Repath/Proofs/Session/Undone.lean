/-
Rules that undo each other. On a line that is undone rules fire, and a later one takes back what an
earlier one did; so the pass has records of the line, and an edit that puts the line in its own
place. A pass says truly whether the text changes, and a save that would leave its document as it
is comes to nothing, exactly as long as no line is undone (`save_truthful_iff`); and none is where
no source clashes with a target.
-/
import Repath.Proofs.Session.Save
import Repath.ScriptedDocument

namespace Repath

namespace Config

/-- Rules fire on the line, and leave it as it was. -/
def Undoes (config : Config) (line : Text) : Prop :=
  config.FiresOn line ∧ config.rewriteLine line = line

/-- A pass over a text of which its edits make `edited` says truly what changes: it has changes
exactly if the text does, and every edit changes the line that it replaces. -/
structure Truthful (config : Config) (text edited : Text) : Prop where
  changes : (config.pass text).hasChanges = true ↔ edited ≠ text
  edits : ∀ edit ∈ (config.pass text).edits,
    ∃ line, text.lines[edit.line]? = some line ∧ edit.text ≠ line

variable {config : Config} {text : Text}

/-- The edits of any pass apply, and make of the text what the rules do if the configuration is
on. -/
theorem exists_applyAll_edits (config : Config) (text : Text) :
    ∃ edited, LineEdit.applyAll (config.pass text).edits text = .ok edited ∧
      (edited = text ↔
        ∀ line ∈ text.lines, config.FiresOn line → config.rewriteLine line = line) := by
  cases hen : config.enabled with
  | false =>
    refine ⟨text, by rw [pass_of_disabled hen]; exact LineEdit.applyAll_nil text, ?_⟩
    simp [FiresOn, hen]
  | true =>
    refine ⟨config.rewrite text, applyAll_edits_self hen text, rewrite_eq_self_iff.trans ?_⟩
    refine forall₂_congr fun line _ => ⟨fun h _ => h, fun h => ?_⟩
    by_cases hfires : config.FiresOn line
    · exact h hfires
    · exact rewriteLine_of_not_firesOn hen hfires

/-- Every edit of a pass changes its line exactly if no line is undone. -/
theorem edits_change_iff :
    (∀ edit ∈ (config.pass text).edits,
        ∃ line, text.lines[edit.line]? = some line ∧ edit.text ≠ line) ↔
      ∀ line ∈ text.lines, ¬ config.Undoes line := by
  constructor
  · rintro h line hline ⟨hfires, hsame⟩
    obtain ⟨n, hn⟩ := List.getElem?_of_mem hline
    have hchange : ⟨n, line, config.rewriteLine line⟩ ∈ (config.pass text).lineChanges :=
      (Pass.mem_lineChanges_iff config text _).2 ⟨hn, hfires, rfl⟩
    obtain ⟨old, hold, hne⟩ := h ⟨n, config.rewriteLine line⟩ (Pass.mem_edits_iff.2 ⟨_, hchange, rfl⟩)
    exact hne (hsame.trans (Option.some.inj (hn.symm.trans hold)))
  · intro h edit hedit
    obtain ⟨change, hchange, rfl⟩ := Pass.mem_edits_iff.1 hedit
    obtain ⟨hline, hfires, hafter⟩ := (Pass.mem_lineChanges_iff config text change).1 hchange
    refine ⟨change.before, hline, fun hsame => ?_⟩
    exact h change.before (List.mem_of_getElem? hline) ⟨hfires, hafter.symm.trans hsame⟩

/-- Where no source clashes with a target, no line is undone: a source that was in the line is
gone. -/
theorem not_undoes_of_separate (h : Pass.Separate config.enabledRules) (line : Text) :
    ¬ config.Undoes line := by
  rintro ⟨⟨-, hacc, hfires⟩, hsame⟩
  rw [rewriteLine, if_pos hacc] at hsame
  refine Pass.not_fires_of_not_infix (fun rule hrule hb => ?_) hfires
  have hgone : ¬ rule.source <:+: Pass.chained config.enabledRules line :=
    Pass.source_not_infix_chained (fun j hj => h rule hrule j hj hb) ⟨rule, hrule, hb, rfl⟩
  rwa [hsame] at hgone

end Config

namespace Session

variable {σ : Type}

/-- A save comes to nothing: it finds nothing to change, hands in nothing, announces nothing and
records no path. -/
structure Idle (session : Session) (kind : LiveDocument σ) (document : σ) (now : Nat) : Prop where
  unchanged : (session.save kind document now).answer =
    .ok (.unchanged (session.config.pass (kind.text document)))
  handed : session.handed kind document now = []
  notAnnounced : ∀ p q, Notice.applied p q ∉ (session.save kind document now).notices
  notRecorded : (session.save kind document now).session.cooldown = session.cooldown.sweep now

/-- A save without changes comes to nothing. -/
theorem idle_of_unchanged {session : Session} {kind : LiveDocument σ} {document : σ} {now : Nat}
    (h : session.Admits (kind.path document) now)
    (hch : (session.config.pass (kind.text document)).hasChanges = false) :
    session.Idle kind document now where
  unchanged := by rw [save_of_unchanged h hch]
  handed := handed_of_unchanged hch
  notAnnounced p q := by
    rw [save_of_unchanged h hch]
    exact applied_notMem_failureNotices session.config _ _ p q
  notRecorded := by
    rw [save_of_unchanged h hch]
    rfl

/-- The edits of a pass apply to the text that was scanned. The pass says truly what changes, and a
save that gets to the scan and would leave the text as it is comes to nothing, exactly if no line
is undone; and no line is if no source of an enabled rule clashes with a target of one. -/
theorem save_truthful_iff (session : Session) (kind : LiveDocument σ) (document : σ) (now : Nat) :
    let config := session.config
    let text := kind.text document
    ∃ edited, LineEdit.applyAll (config.pass text).edits text = .ok edited ∧
      (config.Truthful text edited ∧
          (session.Admits (kind.path document) now → edited = text →
            session.Idle kind document now) ↔
        ∀ line ∈ text.lines, ¬ config.Undoes line) ∧
      (Pass.Separate config.enabledRules → ∀ line ∈ text.lines, ¬ config.Undoes line) := by
  intro config text
  obtain ⟨edited, hedited, hsame⟩ := config.exists_applyAll_edits text
  refine ⟨edited, hedited, ⟨fun h => Config.edits_change_iff.1 h.1.edits, fun h => ?_⟩,
    fun hseparate line _ => Config.not_undoes_of_separate hseparate line⟩
  -- without undone lines, a text that stays as it is has no line on which a rule fires
  have hquiet : edited = text ↔ ¬ config.Fires text := by
    rw [hsame]
    constructor
    · rintro hkept ⟨line, hline, hfires⟩
      exact h line hline ⟨hfires, hkept line hline hfires⟩
    · exact fun hnot line hline hfires => absurd ⟨line, hline, hfires⟩ hnot
  have hchanges : (config.pass text).hasChanges = true ↔ edited ≠ text := by
    rw [Pass.hasChanges_iff, ne_eq, hquiet, not_not]
  refine ⟨⟨hchanges, Config.edits_change_iff.2 h⟩, fun hadmits hkept => ?_⟩
  have hch : (config.pass text).hasChanges = false := by
    rw [← Bool.not_eq_true, hchanges]
    exact fun hne => hne hkept
  exact idle_of_unchanged hadmits hch

/-- One rule makes the other's target of its source, and the other takes it back: the pass has
changes, the save is applied and hands in an edit, and the text is the same. -/
theorem save_applied_undone :
    let config : Config := { rules :=
      [⟨['r'], ['a'], ['b'], [], true⟩, ⟨['s'], ['b'], ['a'], [], true⟩] }
    let session := Session.start config
    let document : ScriptedDocument := { path := ['p'], text := "\"a\"".toList }
    let pass := config.pass document.text
    let saved := session.save ScriptedDocument.kind document 0
    LineEdit.applyAll pass.edits document.text = .ok document.text ∧
      pass.edits = [⟨0, document.text⟩] ∧
      ¬ config.Truthful document.text document.text ∧
      session.Admits document.path 0 ∧ saved.answer = .ok (.applied pass) ∧
      session.handed ScriptedDocument.kind document 0 = [pass.edits] ∧
      ¬ session.Idle ScriptedDocument.kind document 0 := by
  intro config session document pass saved
  have hpass : pass.hasChanges = true := by decide
  have hanswer : saved.answer = .ok (.applied pass) := by decide
  have hadmits : session.Admits document.path 0 := by decide
  have hhanded : session.handed ScriptedDocument.kind document 0 = [pass.edits] := by decide
  refine ⟨by decide, by decide, fun h => h.changes.1 hpass rfl, hadmits, hanswer, hhanded, ?_⟩
  intro h
  exact List.cons_ne_nil _ _ (hhanded.symm.trans h.handed)

end Session

end Repath

/-
Sessions whose configurations were all read from settings. Reading trims the sources of rules and
takes no blank ones, and a pass fails only on rules with a blank source; the two agree on what is
blank, so under a configuration that was read no rule ever fails (`Config.Read.fired`). A start and
a refresh bring in a configuration that was read and a save keeps it, so this holds throughout every
run (`Configured.never_fails`).
-/
import Repath.Proofs.Session.Save
import Repath.Proofs.Settings
import Repath.Proofs.Trial

namespace Repath

/-! ## Rules that can do their work -/

/-- A rule with a source that is not blank fails on no line. -/
theorem Rule.exists_apply_eq_ok {rule : Rule} (h : rule.source.isBlank = false) (line : Text)
    (n : Nat) : ∃ r?, rule.apply line n = .ok r? := by
  by_cases hsame : rule.rewrite line = line
  · exact ⟨none, apply_of_rewrite_eq h hsame n⟩
  · exact ⟨_, apply_eq_record h hsame n⟩

/-- A chain of such rules has replacements only. -/
theorem Pass.fired_of_mem_chain {n : Nat} {event : RuleEvent} :
    ∀ {rules : List Rule} {line : Text}, (∀ rule ∈ rules, rule.source.isBlank = false) →
      event ∈ chain n line rules → ∃ r, event = .fired r
  | rule :: rules, line, h, hevent => by
    have hrules := fun r hr => h r (List.mem_cons_of_mem rule hr)
    obtain ⟨r?, happly⟩ := rule.exists_apply_eq_ok (h rule (List.mem_cons_self ..)) line n
    rw [chain, happly] at hevent
    cases r? with
    | none => exact fired_of_mem_chain hrules hevent
    | some r =>
      rcases List.mem_cons.1 hevent with rfl | hevent
      · exact ⟨r, rfl⟩
      · exact fired_of_mem_chain hrules hevent

/-! ## Configurations that were read -/

namespace Config

/-- The configurations that are read from settings: from a section, whatever it holds, or from a
document that has one. -/
inductive Read : Config → Prop
  | ofSection (part : Json) : Read (Config.ofSection part)
  | ofDocument {document : Json} {config : Config} :
      Settings.config? document = .ok config → Read config

variable {config : Config}

theorem clean_of_mem_ofSection {part : Json} {rule : Rule} (h : rule ∈ (ofSection part).rules) :
    rule.Clean := by
  have h : rule ∈ ((part.get? rulesKey).map Rule.listOfJson).getD [] := h
  cases hrules : part.get? rulesKey with
  | none => rw [hrules] at h; cases h
  | some raw =>
    rw [hrules] at h
    exact Rule.clean_of_mem_listOfJson h

theorem Read.clean (hread : config.Read) {rule : Rule} (h : rule ∈ config.rules) : rule.Clean := by
  cases hread with
  | ofSection part => exact clean_of_mem_ofSection h
  | @ofDocument document _ hdocument =>
    cases document with
    | object fields =>
      cases hdocument
      exact clean_of_mem_ofSection h
    | _ => cases hdocument

theorem Read.source_not_isBlank (hread : config.Read) {rule : Rule} (h : rule ∈ config.rules) :
    rule.source.isBlank = false :=
  (hread.clean h).source.not_isBlank

/-- Under a configuration that was read, a pass has replacements only. -/
theorem Read.fired (hread : config.Read) {text : Text} {event : RuleEvent}
    (h : event ∈ config.trail text) : ∃ r, event = .fired r := by
  have hrules : ∀ rule ∈ config.enabledRules, rule.source.isBlank = false :=
    fun _ hrule => hread.source_not_isBlank (List.mem_of_mem_filter hrule)
  rw [trail] at h
  split at h
  · obtain ⟨⟨line, n⟩, -, hline⟩ := List.mem_flatMap.1 h
    simp only at hline
    split at hline
    · exact Pass.fired_of_mem_chain hrules hline
    · cases hline
  · cases h

theorem Read.failures (hread : config.Read) (text : Text) : (config.pass text).failures = [] := by
  refine List.filterMap_eq_nil_iff.2 fun event hevent => ?_
  obtain ⟨r, rfl⟩ := hread.fired hevent
  rfl

end Config

namespace Session

variable {σ : Type} {session : Session}

/-- The sessions that are reached by a start and any refreshes, with configurations that were read,
and saves, of any documents and at any times. -/
inductive Configured : Session → Prop
  | start {config : Config} (cooldown : Cooldown) : config.Read → Configured (.start config cooldown)
  | refresh {session : Session} {config : Config} :
      Configured session → config.Read → Configured (session.refresh config)
  | save {session : Session} {σ : Type} (kind : LiveDocument σ) (document : σ) (now : Nat) :
      Configured session → Configured (session.save kind document now).session

/-- The current configuration was read. -/
theorem Configured.read (h : Configured session) : session.config.Read := by
  induction h with
  | start cooldown hread => exact hread
  | refresh _ hread _ => exact hread
  | @save session σ kind document now _ ih =>
    rw [(save_config_exemptions session kind document now).1]
    exact ih

theorem mem_failures_of_mem_failureNotices {config : Config} {p path : Text} {pass : Pass}
    {failure : RuleFailure} (h : Notice.ruleFailed path failure ∈ failureNotices config p pass) :
    failure ∈ pass.failures := by
  unfold failureNotices at h
  split at h
  · obtain ⟨_, hmem, heq⟩ := List.mem_map.1 h
    cases heq
    exact hmem
  · cases h

theorem ruleFailed_notMem_appliedNotices (config : Config) (p path : Text) (pass : Pass)
    (failure : RuleFailure) : Notice.ruleFailed path failure ∉ appliedNotices config p pass := by
  unfold appliedNotices
  split <;> simp

/-- What a save shows of failed rules are failures of its pass. -/
theorem mem_failures_of_mem_notices {kind : LiveDocument σ} {document : σ} {now : Nat} {path : Text}
    {failure : RuleFailure}
    (h : Notice.ruleFailed path failure ∈ (session.save kind document now).notices) :
    failure ∈ (session.config.pass (kind.text document)).failures := by
  cases session.save_route kind document now with
  | stopped outcome hstops => rw [save_of_stops hstops] at h; cases h
  | unchanged hadmits hch =>
    rw [save_of_unchanged hadmits hch] at h
    exact mem_failures_of_mem_failureNotices h
  | failed error hadmits hch hres =>
    rw [save_of_failed hadmits hch hres] at h
    exact mem_failures_of_mem_failureNotices h
  | applied hadmits hch hres =>
    rw [save_of_applied hadmits hch hres] at h
    rcases List.mem_append.1 h with h | h
    · exact mem_failures_of_mem_failureNotices h
    · exact absurd h (ruleFailed_notMem_appliedNotices _ _ _ _ _)

/-! ## No rule fails -/

/-- Reading rules, from any value, takes only trimmed names and sources that are not empty; each
entry of an array is read on its own, in order, and every entry is kept or dropped. So in every
session that is reached with configurations that were read, no pass has a failure or even an event
of one, no rule fails on a line, trying a rule succeeds, and no save shows a failed rule. -/
theorem Configured.never_fails :
    (∀ raw : Json,
      (∀ rule ∈ Rule.listOfJson raw,
        (rule.name.trim = rule.name ∧ rule.name ≠ []) ∧
        (rule.source.trim = rule.source ∧ rule.source ≠ [])) ∧
      (Rule.listOfJson raw = (raw.items?.getD []).flatMap fun entry =>
        (Rule.ofJson entry).toOption.toList) ∧
      (Settings.prepare raw).kept = Rule.listOfJson raw ∧
      (Settings.prepare raw).kept.length + (Settings.prepare raw).dropped =
        (raw.items?.getD []).length) ∧
    (∀ items others : List Json, Rule.listOfJson (.array (items ++ others)) =
      Rule.listOfJson (.array items) ++ Rule.listOfJson (.array others)) ∧
    ∀ session : Session, Configured session →
      (∀ text, (session.config.pass text).failures = [] ∧
        ∀ event ∈ session.config.trail text, ∃ r, event = .fired r) ∧
      (∀ rule ∈ session.config.rules,
        (∀ line n, ∃ r?, rule.apply line n = .ok r?) ∧
        ∀ text, rule.trial text = { success := true, result := rule.rewrite text }) ∧
      ∀ {σ : Type} (kind : LiveDocument σ) (document : σ) (now : Nat) (path : Text)
        (failure : RuleFailure),
        Notice.ruleFailed path failure ∉ (session.save kind document now).notices := by
  refine ⟨fun raw => ⟨fun rule hrule => ?_, Rule.listOfJson_eq_flatMap raw, rfl, ?_⟩,
    Rule.listOfJson_append, fun session h => ⟨fun text => ?_, fun rule hrule => ?_, ?_⟩⟩
  · have hclean := Rule.clean_of_mem_listOfJson hrule
    exact ⟨⟨hclean.name.trimmed, hclean.name.nonempty⟩,
      ⟨hclean.source.trimmed, hclean.source.nonempty⟩⟩
  · exact Nat.add_sub_of_le (Rule.length_listOfJson_le raw)
  · exact ⟨h.read.failures text, fun _ hevent => h.read.fired hevent⟩
  · have hblank := h.read.source_not_isBlank hrule
    exact ⟨rule.exists_apply_eq_ok hblank, Rule.trial_of_not_isBlank hblank⟩
  · intro σ kind document now path failure hnotice
    have hmem := mem_failures_of_mem_notices hnotice
    rw [h.read.failures] at hmem
    cases hmem

/-- A session that started empty, saved a document and was refreshed from settings in which a blank
source and a name of an ideographic space stand beside a source with blanks around it. -/
theorem Configured.never_fails_refreshed :
    let entry := fun name source : String => Json.object [(Rule.enabledKey, .bool true),
      (Rule.sourceKey, .string source.toList), (Rule.nameKey, .string name.toList),
      (Rule.targetKey, .string ['b'])]
    let settings := Json.object [(Config.rulesKey,
      .array [entry "r" " \t", entry "\u3000" "a", entry " s" "\u00a0a\u2003"])]
    let config : Config := { rules := [⟨['s'], ['a'], ['b'], [], true⟩] }
    let document : ScriptedDocument := { path := ['p'], text := "\"a\"".toList }
    let session := ((Session.start {}).save ScriptedDocument.kind document 0).session.refresh config
    Settings.config? settings = .ok config ∧ Configured session ∧
      (config.pass document.text).failures = [] ∧ (config.pass document.text).hasChanges = true ∧
      ∀ path failure, Notice.ruleFailed path failure ∉
        (session.save ScriptedDocument.kind document 1).notices := by
  intro entry settings config document session
  have hread : Settings.config? settings = .ok config := by decide
  have hfirst : Configured (Session.start {}) := .start {} (.ofSection .null)
  have hsession : Configured session :=
    .refresh (.save ScriptedDocument.kind document 0 hfirst) (.ofDocument hread)
  obtain ⟨hpass, -, hsave⟩ := Configured.never_fails.2.2 session hsession
  exact ⟨hread, hsession, (hpass document.text).1, by decide,
    hsave ScriptedDocument.kind document 1⟩

end Session

end Repath

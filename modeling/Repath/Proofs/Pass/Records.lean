/-
The records of a pass, each with the place of its rule. On a line the rules are tried in their
order, and the text that the records of the rules before it lead to is what a rule works on: it has
a record exactly if it changes that text (`ExactChain`). A rule that does nothing only moves the
places of the others (`ExactChain.skip`), one that fires puts its record in front
(`ExactChain.fire`). Line by line this gives all records of a pass (`pass_exact`); a rule that is
off or has a blank source has no part in them.
-/
import Repath.Proofs.Pass.Apply
import Repath.Proofs.Pass.Collapse

namespace Repath

namespace Pass

/-- A record, and the place of its rule in a list of rules. -/
structure Placed where
  place : Nat
  record : Replacement

/-- The record with one more rule in front of its own. -/
def Placed.next (p : Placed) : Placed :=
  { p with place := p.place + 1 }

/-- The text that the records of the rules before a place lead to. -/
def reached (line : Text) (records : List Placed) (place : Nat) : Text :=
  (records.filter (·.place < place)).foldl (fun _ p => p.record.after) line

/-- The records of the rules on line `n`, one from the other in the order of the rules. Each is what
its rule makes of the text before it, and a rule that does not fail has none exactly if its source is
not in the text reached at its place, or is its target. -/
structure ExactChain (rules : List Rule) (n : Nat) (line : Text) (records : List Placed) : Prop where
  ordered : records.Pairwise fun p q => p.place < q.place
  linked : ∃ final, Linked n line (records.map (·.record)) final
  changed : ∀ p ∈ records, p.record.before ≠ p.record.after
  applied : ∀ p ∈ records, ∃ rule, rules[p.place]? = some rule ∧
    rule.apply p.record.before n = .ok (some p.record)
  absent : ∀ place rule, rules[place]? = some rule → rule.source.isBlank = false →
    ((∀ p ∈ records, p.place ≠ place) ↔
      ¬ rule.source <:+: reached line records place ∨ rule.target = rule.source)

/-! ## One line -/

variable {rule : Rule} {rules : List Rule} {n : Nat} {line : Text} {records : List Placed}

theorem reached_zero (line : Text) (records : List Placed) : reached line records 0 = line := by
  simp [reached]

theorem reached_next (line : Text) (records : List Placed) (place : Nat) :
    reached line (records.map Placed.next) (place + 1) = reached line records place := by
  simp [reached, List.filter_map, List.foldl_map, Placed.next, Function.comp_def]

theorem reached_cons_next (line : Text) (r : Replacement) (records : List Placed) (place : Nat) :
    reached line (⟨0, r⟩ :: records.map Placed.next) (place + 1) = reached r.after records place := by
  have hmoved := reached_next r.after records place
  unfold reached at hmoved ⊢
  rw [List.filter_cons_of_pos (by simp), List.foldl_cons, hmoved]

theorem next_place_ne_zero {p : Placed} (h : p ∈ records.map Placed.next) : p.place ≠ 0 := by
  obtain ⟨q, -, rfl⟩ := List.mem_map.1 h
  exact Nat.succ_ne_zero q.place

theorem pairwise_next (h : records.Pairwise fun p q => p.place < q.place) :
    (records.map Placed.next).Pairwise fun p q => p.place < q.place :=
  List.pairwise_map.2 (h.imp Nat.succ_lt_succ)

/-- With one more rule in front, the records behind it are absent as they were. -/
theorem forall_next_place_ne_iff (place : Nat) :
    (∀ p ∈ records.map Placed.next, p.place ≠ place + 1) ↔ ∀ p ∈ records, p.place ≠ place := by
  simp [Placed.next]

theorem exactChain_nil (n : Nat) (line : Text) : ExactChain [] n line [] where
  ordered := .nil
  linked := ⟨line, .nil line⟩
  changed := by simp
  applied := by simp
  absent := by simp

/-- A rule that leaves no record moves the records of the others by one place. -/
theorem ExactChain.skip (h : ExactChain rules n line records)
    (hnone : ∀ r, rule.apply line n ≠ .ok (some r)) :
    ExactChain (rule :: rules) n line (records.map Placed.next) where
  ordered := pairwise_next h.ordered
  linked := by
    rw [List.map_map]
    exact h.linked
  changed := by
    intro p hp
    obtain ⟨q, hq, rfl⟩ := List.mem_map.1 hp
    exact h.changed q hq
  applied := by
    intro p hp
    obtain ⟨q, hq, rfl⟩ := List.mem_map.1 hp
    exact h.applied q hq
  absent := by
    intro place tried htried hb
    cases place with
    | zero =>
      obtain rfl : rule = tried := Option.some.inj htried
      rw [reached_zero]
      refine iff_of_true (fun p hp => next_place_ne_zero hp) ?_
      by_contra! hfires
      exact hnone _ (Rule.apply_eq_some_iff.2 ⟨hb, hfires.1, hfires.2, rfl⟩)
    | succ place =>
      rw [reached_next, forall_next_place_ne_iff]
      exact h.absent place tried htried hb

/-- A rule that changes the line puts its record in front of those of the others, which start from
what it made. -/
theorem ExactChain.fire {r : Replacement} (h : ExactChain rules n r.after records)
    (hsome : rule.apply line n = .ok (some r)) :
    ExactChain (rule :: rules) n line (⟨0, r⟩ :: records.map Placed.next) := by
  have hmarks := Rule.marks_of_apply hsome
  obtain ⟨final, hlinked⟩ := h.linked
  exact {
    ordered := List.pairwise_cons.2
      ⟨fun _ hp => Nat.pos_of_ne_zero (next_place_ne_zero hp), pairwise_next h.ordered⟩
    linked := by
      rw [List.map_cons, List.map_map]
      exact ⟨final, .cons hmarks.number hmarks.before hlinked⟩
    changed := by
      intro p hp
      rcases List.mem_cons.1 hp with rfl | hp
      · exact fun hsame => hmarks.changed (hsame.symm.trans hmarks.before)
      · obtain ⟨q, hq, rfl⟩ := List.mem_map.1 hp
        exact h.changed q hq
    applied := by
      intro p hp
      rcases List.mem_cons.1 hp with rfl | hp
      · exact ⟨rule, rfl, hmarks.before.symm ▸ hsome⟩
      · obtain ⟨q, hq, rfl⟩ := List.mem_map.1 hp
        exact h.applied q hq
    absent := by
      intro place tried htried hb
      rw [List.forall_mem_cons]
      cases place with
      | zero =>
        obtain rfl : rule = tried := Option.some.inj htried
        obtain ⟨-, hin, hne, -⟩ := Rule.apply_eq_some_iff.1 hsome
        rw [reached_zero]
        exact iff_of_false (fun hnone => hnone.1 rfl) fun hidle => hidle.elim (· hin) hne
      | succ place =>
        rw [reached_cons_next, forall_next_place_ne_iff, and_iff_right (Nat.succ_ne_zero place).symm]
        exact h.absent place tried htried hb }

/-- The records of the rules on a line, with their places. -/
def placed (n : Nat) : Text → List Rule → List Placed
  | _, [] => []
  | line, rule :: rules =>
    match rule.apply line n with
    | .ok (some r) => ⟨0, r⟩ :: (placed n r.after rules).map Placed.next
    | _ => (placed n line rules).map Placed.next

theorem exactChain_placed (n : Nat) : ∀ (rules : List Rule) (line : Text),
    ExactChain rules n line (placed n line rules)
  | [], line => exactChain_nil n line
  | rule :: rules, line => by
    rw [placed]
    split
    · rename_i r hsome
      exact (exactChain_placed n rules r.after).fire hsome
    · rename_i hnone
      exact (exactChain_placed n rules line).skip hnone

theorem map_record_placed (n : Nat) : ∀ (rules : List Rule) (line : Text),
    (placed n line rules).map (·.record) = Pass.records n line rules
  | [], _ => rfl
  | rule :: rules, line => by
    rw [placed, Pass.records, chain]
    cases rule.apply line n with
    | error error =>
      rw [List.map_map]
      exact map_record_placed n rules line
    | ok r? =>
      cases r? with
      | none =>
        rw [List.map_map]
        exact map_record_placed n rules line
      | some r =>
        rw [List.map_cons, List.map_map]
        exact congrArg (r :: ·) (map_record_placed n rules r.after)

/-- The failures of a line are those of the rules with a blank source, whatever the line is. -/
theorem failures_chain (n : Nat) : ∀ (rules : List Rule) (line : Text),
    (chain n line rules).filterMap RuleEvent.failure? =
      (rules.filter fun rule => rule.source.isBlank).map fun rule =>
        ⟨rule.name, n, .emptySource rule.name⟩
  | [], _ => rfl
  | rule :: rules, line => by
    cases hb : rule.source.isBlank with
    | true =>
      rw [chain_cons_of_isBlank hb, List.filter_cons_of_pos (by exact hb), List.map_cons]
      exact congrArg _ (failures_chain n rules line)
    | false =>
      rw [List.filter_cons_of_neg (by simp [hb])]
      by_cases hsame : rule.rewrite line = line
      · rw [chain_cons_of_rewrite_eq hb hsame]
        exact failures_chain n rules line
      · rw [chain_cons_of_rewrite_ne hb hsame]
        exact failures_chain n rules (rule.rewrite line)

/-- Rules with a blank source have no part in the records of a line. -/
theorem records_filter (n : Nat) : ∀ (rules : List Rule) (line : Text),
    Pass.records n line (rules.filter fun rule => !rule.source.isBlank) = Pass.records n line rules
  | [], _ => rfl
  | rule :: rules, line => by
    cases hb : rule.source.isBlank with
    | true =>
      rw [List.filter_cons_of_neg (by simp [hb]), records_filter n rules line]
      unfold Pass.records
      rw [chain_cons_of_isBlank hb]
      rfl
    | false =>
      rw [List.filter_cons_of_pos (by simp [hb])]
      unfold Pass.records
      by_cases hsame : rule.rewrite line = line
      · rw [chain_cons_of_rewrite_eq hb hsame, chain_cons_of_rewrite_eq hb hsame]
        exact records_filter n rules line
      · rw [chain_cons_of_rewrite_ne hb hsame, chain_cons_of_rewrite_ne hb hsame]
        exact congrArg (rule.record line n :: ·) (records_filter n rules (rule.rewrite line))

end Pass

/-! ## All lines -/

namespace Config

variable {config : Config} {text line : Text} {n : Nat}

/-- The records of a line, with the places of their rules among the enabled ones. -/
def placedOn (config : Config) (n : Nat) (line : Text) : List Pass.Placed :=
  if ImportLine.accepts line then Pass.placed n line config.enabledRules else []

/-- The records of the lines of a text, with the places of their rules. -/
def placed (config : Config) (text : Text) : List Pass.Placed :=
  text.lines.zipIdx.flatMap fun (line, n) => config.placedOn n line

/-- Records with the places of their rules among the enabled ones: in the order of the lines and on
a line in the order of the rules, with no two of one rule on one line. They are on no lines but those
that look like an import, and on each of these they are one exact chain. -/
structure ExactRecords (config : Config) (text : Text) (records : List Pass.Placed) : Prop where
  ordered : records.Pairwise fun p q =>
    p.record.line < q.record.line ∨ p.record.line = q.record.line ∧ p.place < q.place
  accepted : ∀ p ∈ records, ∃ line,
    text.lines[p.record.line]? = some line ∧ ImportLine.accepts line = true
  chains : ∀ n line, text.lines[n]? = some line → ImportLine.accepts line = true →
    Pass.ExactChain config.enabledRules n line (records.filter (·.record.line = n))

theorem map_record_placedOn (config : Config) (n : Nat) (line : Text) :
    (config.placedOn n line).map (·.record) = config.lineRecords n line := by
  unfold placedOn lineRecords
  split
  · exact Pass.map_record_placed n config.enabledRules line
  · rfl

theorem map_record_placed (hen : config.enabled = true) (text : Text) :
    (config.placed text).map (·.record) = (config.pass text).replacements := by
  rw [replacements_pass hen, placed, List.map_flatMap]
  exact List.flatMap_congr fun (line, n) _ => config.map_record_placedOn n line

theorem line_of_mem_placedOn {p : Pass.Placed} (h : p ∈ config.placedOn n line) :
    p.record.line = n :=
  (config.lineRecords_linked n line).line_eq p.record
    (config.map_record_placedOn n line ▸ List.mem_map_of_mem h)

theorem accepts_of_mem_placedOn {p : Pass.Placed} (h : p ∈ config.placedOn n line) :
    ImportLine.accepts line = true := by
  unfold placedOn at h
  split at h
  · assumption
  · cases h

theorem placedOn_pairwise (config : Config) (n : Nat) (line : Text) :
    (config.placedOn n line).Pairwise fun p q => p.place < q.place := by
  unfold placedOn
  split
  · exact (Pass.exactChain_placed n config.enabledRules line).ordered
  · exact .nil

theorem zipIdx_lines_pairwise (text : Text) : text.lines.zipIdx.Pairwise fun a b => a.2 < b.2 := by
  have hnumbers : (text.lines.zipIdx.map Prod.snd).Pairwise (· < ·) := by
    rw [List.zipIdx_map_snd]
    exact List.pairwise_lt_range'
  exact List.pairwise_map.1 hnumbers

/-- The records of a line are those that name it. -/
theorem filter_placed (h : text.lines[n]? = some line) :
    (config.placed text).filter (·.record.line = n) = config.placedOn n line := by
  -- the lines before and behind it have other numbers
  obtain ⟨before, behind, hsplit⟩ := List.append_of_mem (List.mk_mem_zipIdx_iff_getElem?.2 h)
  have hnumbers := zipIdx_lines_pairwise text
  rw [hsplit, List.pairwise_append, List.pairwise_cons] at hnumbers
  obtain ⟨-, ⟨hbehind, -⟩, hbefore⟩ := hnumbers
  have hother : ∀ others : List (Text × Nat), (∀ a ∈ others, a.2 ≠ n) →
      (others.flatMap fun a => config.placedOn a.2 a.1).filter (·.record.line = n) = [] := by
    intro others hne
    rw [List.filter_eq_nil_iff]
    intro p hp
    obtain ⟨a, ha, hp⟩ := List.mem_flatMap.1 hp
    rw [line_of_mem_placedOn hp]
    simpa using hne a ha
  have hown : (config.placedOn n line).filter (·.record.line = n) = config.placedOn n line :=
    List.filter_eq_self.2 fun p hp => by simpa using line_of_mem_placedOn hp
  rw [placed, hsplit, List.flatMap_append, List.flatMap_cons, List.filter_append,
    List.filter_append, hown, hother before fun a ha => Nat.ne_of_lt (hbefore a ha _ (List.mem_cons_self ..)),
    hother behind fun a ha => Nat.ne_of_gt (hbehind a ha), List.nil_append, List.append_nil]

theorem exactRecords_placed (config : Config) (text : Text) :
    config.ExactRecords text (config.placed text) where
  ordered := by
    refine List.pairwise_flatMap.2 ⟨fun (line, n) _ => ?_, ?_⟩
    · refine (config.placedOn_pairwise n line).imp_of_mem fun hp hq hlt => .inr ⟨?_, hlt⟩
      rw [line_of_mem_placedOn hp, line_of_mem_placedOn hq]
    · refine (zipIdx_lines_pairwise text).imp fun hlt p hp q hq => .inl ?_
      rw [line_of_mem_placedOn hp, line_of_mem_placedOn hq]
      exact hlt
  accepted := by
    intro p hp
    obtain ⟨⟨line, n⟩, hline, hp⟩ := List.mem_flatMap.1 hp
    rw [line_of_mem_placedOn hp]
    exact ⟨line, List.mk_mem_zipIdx_iff_getElem?.1 hline, accepts_of_mem_placedOn hp⟩
  chains := by
    intro n line hline hacc
    rw [filter_placed hline, placedOn, if_pos hacc]
    exact Pass.exactChain_placed n config.enabledRules line

/-- One failure for every line of a text that looks like an import and every enabled rule with a
blank source, in the order of the lines and on a line in the order of the rules. -/
def blankFailures (config : Config) (text : Text) : List RuleFailure :=
  text.lines.zipIdx.flatMap fun (line, n) =>
    if ImportLine.accepts line then
      (config.enabledRules.filter fun rule => rule.source.isBlank).map fun rule =>
        ⟨rule.name, n, .emptySource rule.name⟩
    else []

theorem failures_pass (hen : config.enabled = true) (text : Text) :
    (config.pass text).failures = config.blankFailures text := by
  show (config.trail text).filterMap RuleEvent.failure? = _
  rw [trail, if_pos hen, Pass.trail, List.filterMap_flatMap, blankFailures]
  refine List.flatMap_congr fun scanned _ => ?_
  obtain ⟨line, n⟩ := scanned
  cases hacc : ImportLine.accepts line with
  | true => simp only [hacc, if_true, Pass.failures_chain]
  | false => simp only [hacc, Bool.false_eq_true, if_false, List.filterMap_nil]

/-- The configuration without the rules that are off or have a blank source. -/
def pruned (config : Config) : Config :=
  { config with rules := config.rules.filter fun rule => rule.enabled && !rule.source.isBlank }

theorem enabledRules_pruned (config : Config) :
    config.pruned.enabledRules = config.enabledRules.filter fun rule => !rule.source.isBlank := by
  unfold pruned enabledRules
  rw [List.filter_filter, List.filter_filter]
  refine List.filter_congr fun rule _ => ?_
  cases rule.enabled <;> simp

theorem replacements_pruned (hen : config.enabled = true) (text : Text) :
    (config.pruned.pass text).replacements = (config.pass text).replacements := by
  have hsame : ∀ n line, config.pruned.lineRecords n line = config.lineRecords n line := by
    intro n line
    rw [lineRecords, enabledRules_pruned, Pass.records_filter, lineRecords]
  have hpruned : config.pruned.enabled = true := hen
  rw [replacements_pass hpruned, replacements_pass hen]
  exact List.flatMap_congr fun (line, n) _ => hsame n line

/-- The records of a pass are exact records, with one place for each. Its failures are one for every
line that looks like an import and every enabled rule with a blank source, in that order. Rules that
are off or have a blank source have no part in the records. -/
theorem pass_exact (hen : config.enabled = true) (text : Text) :
    (∃ records, records.map (·.record) = (config.pass text).replacements ∧
      config.ExactRecords text records) ∧
    (config.pass text).failures = config.blankFailures text ∧
    (config.pruned.pass text).replacements = (config.pass text).replacements :=
  ⟨⟨config.placed text, map_record_placed hen text, exactRecords_placed config text⟩,
    failures_pass hen text, replacements_pruned hen text⟩

/-- Three rules of one name that work on each other's targets, between them one that is off, one that
fails and one whose source does not come up. -/
theorem pass_exact_chained :
    let config : Config := { rules :=
      [⟨['r'], ['a'], ['b'], [], true⟩, ⟨['o'], ['b'], ['c'], [], false⟩,
       ⟨['e'], [' '], ['x'], [], true⟩, ⟨['r'], ['b'], ['a'], [], true⟩,
       ⟨['s'], ['z'], ['y'], [], true⟩, ⟨['r'], ['a'], "bb".toList, [], true⟩] }
    let text : Text := "\"a\"\na\n'ba'".toList
    config.enabled = true ∧
      (∃ records, config.ExactRecords text records ∧
        records.map (fun p => (p.record.line, p.record.before, p.record.after)) =
          [(0, "\"a\"".toList, "\"b\"".toList), (0, "\"b\"".toList, "\"a\"".toList),
           (0, "\"a\"".toList, "\"bb\"".toList), (2, "'ba'".toList, "'bb'".toList),
           (2, "'bb'".toList, "'aa'".toList), (2, "'aa'".toList, "'bbbb'".toList)]) ∧
      (config.pass text).failures =
        [⟨['e'], 0, .emptySource ['e']⟩, ⟨['e'], 2, .emptySource ['e']⟩] ∧
      (config.pruned.pass text).replacements = (config.pass text).replacements := by
  intro config text
  have hen : config.enabled = true := rfl
  obtain ⟨⟨records, hrecords, hexact⟩, hfailures, hpruned⟩ := pass_exact hen text
  refine ⟨hen, ⟨records, hexact, ?_⟩, hfailures.trans (by decide), hpruned⟩
  have hshown := congrArg (List.map fun r => (r.line, r.before, r.after)) hrecords
  rw [List.map_map] at hshown
  exact hshown.trans (by decide)

end Config

end Repath

/-
What a chain of rules makes of one line. The line as the rules leave it is the fold of their
substitutions over the rules with a source that is not blank. The records of a chain are linked:
the first starts from the line, each next one from what the record before it made, and the last
ends in the line as the rules leave it; there is a record exactly if some rule fires, that is,
changes the line as the rules before it left it.
-/
import Repath.Pass
import Repath.Proofs.Text.Substitution

namespace Repath

namespace Rule

/-- The line with the target in place of every occurrence of the source. -/
def rewrite (rule : Rule) (line : Text) : Text :=
  Text.substitute rule.source rule.target line

theorem source_ne_nil {rule : Rule} (h : rule.source.isBlank = false) : rule.source ≠ [] := by
  intro hnil
  rw [hnil] at h
  cases h

theorem apply_of_isBlank {rule : Rule} (h : rule.source.isBlank = true) (line : Text) (n : Nat) :
    rule.apply line n = .error (.emptySource rule.name) := by
  rw [apply, if_pos h]

/-- A rule that leaves the line as it is gives no record. -/
theorem apply_of_rewrite_eq {rule : Rule} (hb : rule.source.isBlank = false) {line : Text}
    (h : rule.rewrite line = line) (n : Nat) : rule.apply line n = .ok none := by
  rw [rewrite, ← Text.replace_eq_substitute, Text.replace] at h
  rw [apply, if_neg (by simp [hb])]
  split
  · rfl
  · rfl
  · rename_i first pieces _ hc
    rw [hc] at h
    simp only [h, if_true]

/-- The number of scalars before the first occurrence of the source. -/
def firstColumn (rule : Rule) (line : Text) : Nat :=
  ((line.cuts rule.source).head?.getD []).length

/-- The record of a rule that changes a line. -/
def record (rule : Rule) (line : Text) (n : Nat) : Replacement where
  before := line
  after := rule.rewrite line
  rule := rule.name
  line := n
  columnStart := rule.firstColumn line
  columnEnd := rule.firstColumn line + rule.source.length

theorem apply_eq_record {rule : Rule} (hb : rule.source.isBlank = false) {line : Text}
    (h : rule.rewrite line ≠ line) (n : Nat) :
    rule.apply line n = .ok (some (rule.record line n)) := by
  have hglue := Text.intercalate_cuts (source_ne_nil hb) line
  rw [record, firstColumn]
  rw [rewrite, ← Text.replace_eq_substitute, Text.replace] at h ⊢
  rw [apply, if_neg (by simp [hb])]
  split
  · rename_i hc
    exact absurd hc (Text.cuts_ne_nil _ _)
  · rename_i piece hc
    -- a single piece is the whole line, whatever it is glued with
    rw [hc, List.intercalate_singleton] at h hglue
    exact absurd hglue h
  · rename_i first pieces _ hc
    rw [hc] at h ⊢
    rw [if_neg h]
    rfl

end Rule

namespace Pass

variable {rule : Rule} {line : Text}

/-! ## The first rule of a chain -/

theorem chain_cons_of_isBlank (h : rule.source.isBlank = true) (n : Nat) (line : Text)
    (rules : List Rule) : chain n line (rule :: rules) =
      .failed ⟨rule.name, n, .emptySource rule.name⟩ :: chain n line rules := by
  rw [chain, Rule.apply_of_isBlank h]

theorem chain_cons_of_rewrite_eq (hb : rule.source.isBlank = false) (h : rule.rewrite line = line)
    (n : Nat) (rules : List Rule) : chain n line (rule :: rules) = chain n line rules := by
  rw [chain, Rule.apply_of_rewrite_eq hb h]

theorem chain_cons_of_rewrite_ne (hb : rule.source.isBlank = false) (h : rule.rewrite line ≠ line)
    (n : Nat) (rules : List Rule) : chain n line (rule :: rules) =
      .fired (rule.record line n) :: chain n (rule.rewrite line) rules := by
  rw [chain, Rule.apply_eq_record hb h]
  rfl

/-! ## The line as the rules leave it -/

/-- The line as the rules with a source that is not blank leave it, one after the other. -/
def chained (rules : List Rule) (line : Text) : Text :=
  (rules.filter fun rule => !rule.source.isBlank).foldl (fun reached rule => rule.rewrite reached) line

/-- Some rule changes the line as the rules before it left it. -/
def Fires (rules : List Rule) (line : Text) : Prop :=
  ∃ before rule after, rules = before ++ rule :: after ∧ rule.source.isBlank = false ∧
    rule.rewrite (chained before line) ≠ chained before line

/-- The records of the rules on a line. -/
def records (n : Nat) (line : Text) (rules : List Rule) : List Replacement :=
  (chain n line rules).filterMap RuleEvent.replacement?

theorem chained_cons_of_isBlank {rule : Rule} (h : rule.source.isBlank = true) (rules : List Rule)
    (line : Text) : chained (rule :: rules) line = chained rules line := by
  rw [chained, List.filter_cons_of_neg (by simp [h]), chained]

theorem chained_cons {rule : Rule} (h : rule.source.isBlank = false) (rules : List Rule)
    (line : Text) : chained (rule :: rules) line = chained rules (rule.rewrite line) := by
  rw [chained, List.filter_cons_of_pos (by simp [h]), List.foldl_cons, chained]

theorem not_fires_nil (line : Text) : ¬ Fires [] line := by
  rintro ⟨before, rule, after, h, -⟩
  simp at h

theorem fires_cons_of_isBlank {rule : Rule} (h : rule.source.isBlank = true) (rules : List Rule)
    (line : Text) : Fires (rule :: rules) line ↔ Fires rules line := by
  constructor
  · rintro ⟨before, fired, after, hsplit, hb, hne⟩
    match before with
    | [] =>
      obtain ⟨rfl, -⟩ := List.cons.inj hsplit
      rw [h] at hb; cases hb
    | _ :: before =>
      obtain ⟨rfl, hrest⟩ := List.cons.inj hsplit
      rw [chained_cons_of_isBlank h] at hne
      exact ⟨before, fired, after, hrest, hb, hne⟩
  · rintro ⟨before, fired, after, rfl, hb, hne⟩
    refine ⟨rule :: before, fired, after, rfl, hb, ?_⟩
    rwa [chained_cons_of_isBlank h]

theorem fires_cons {rule : Rule} (h : rule.source.isBlank = false) (rules : List Rule)
    (line : Text) :
    Fires (rule :: rules) line ↔ rule.rewrite line ≠ line ∨ Fires rules (rule.rewrite line) := by
  constructor
  · rintro ⟨before, fired, after, hsplit, hb, hne⟩
    match before with
    | [] =>
      obtain ⟨rfl, -⟩ := List.cons.inj hsplit
      exact .inl hne
    | _ :: before =>
      obtain ⟨rfl, hrest⟩ := List.cons.inj hsplit
      rw [chained_cons h] at hne
      exact .inr ⟨before, fired, after, hrest, hb, hne⟩
  · rintro (hne | ⟨before, fired, after, rfl, hb, hne⟩)
    · exact ⟨[], rule, rules, rfl, h, hne⟩
    · refine ⟨rule :: before, fired, after, rfl, hb, ?_⟩
      rwa [chained_cons h]

/-! ## Linked records -/

/-- Records of line `n` that lead from one text of the line to another, each from where the one
before it ended. -/
inductive Linked (n : Nat) : Text → List Replacement → Text → Prop
  | nil (t : Text) : Linked n t [] t
  | cons {r : Replacement} {rs : List Replacement} {t u : Text} :
      r.line = n → r.before = t → Linked n r.after rs u → Linked n t (r :: rs) u

theorem Linked.line_eq {n : Nat} {t u : Text} {rs : List Replacement} (h : Linked n t rs u) :
    ∀ r ∈ rs, r.line = n := by
  induction h with
  | nil => simp
  | cons hn _ _ ih =>
    intro r hr
    rcases List.mem_cons.1 hr with rfl | hr
    · exact hn
    · exact ih r hr

/-- The records of a chain lead from the line to the line as the rules leave it. -/
theorem records_linked (n : Nat) :
    ∀ (rules : List Rule) (line : Text), Linked n line (records n line rules) (chained rules line)
  | [], line => .nil line
  | rule :: rules, line => by
    unfold records
    cases hb : rule.source.isBlank with
    | true =>
      rw [chain_cons_of_isBlank hb, chained_cons_of_isBlank hb]
      exact records_linked n rules line
    | false =>
      rw [chained_cons hb]
      by_cases h : rule.rewrite line = line
      · rw [chain_cons_of_rewrite_eq hb h, h]
        exact records_linked n rules line
      · rw [chain_cons_of_rewrite_ne hb h]
        exact .cons rfl rfl (records_linked n rules (rule.rewrite line))

/-- There is a record exactly if some rule fires. -/
theorem records_eq_nil_iff (n : Nat) :
    ∀ (rules : List Rule) (line : Text), records n line rules = [] ↔ ¬ Fires rules line
  | [], line => by simp [records, chain, not_fires_nil]
  | rule :: rules, line => by
    unfold records
    cases hb : rule.source.isBlank with
    | true =>
      rw [chain_cons_of_isBlank hb, fires_cons_of_isBlank hb]
      exact records_eq_nil_iff n rules line
    | false =>
      rw [fires_cons hb]
      by_cases h : rule.rewrite line = line
      · rw [chain_cons_of_rewrite_eq hb h, h]
        simp only [ne_eq, not_true_eq_false, false_or]
        exact records_eq_nil_iff n rules line
      · rw [chain_cons_of_rewrite_ne hb h]
        simp [h, RuleEvent.replacement?]

/-- A line on which no rule fires is left as it is. -/
theorem chained_of_not_fires {rules : List Rule} {line : Text} (h : ¬ Fires rules line) :
    chained rules line = line := by
  have hlinked := records_linked 0 rules line
  rw [(records_eq_nil_iff 0 rules line).2 h] at hlinked
  generalize chained rules line = final at hlinked
  cases hlinked
  rfl

end Pass

end Repath

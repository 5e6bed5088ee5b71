/-
How the records of a pass collapse into one change per line. The records come line by line, in the
order of the lines, and those of a line are linked; so the records of a line add one more change
behind the others (`Collapsed.foldl_add`), from the line as it was scanned to the line as the rules
leave it (`mem_lineChanges_iff`), and asking for each line once, at its first record, asks for the
changes one by one (`firstStale_pass`).
-/
import Repath.LiveDocument
import Repath.Proofs.Pass.Chain
import Repath.Proofs.Pass.Changes
import Mathlib.Data.List.Basic

namespace Repath

/-! ## What a configuration makes of a text -/

namespace Config

/-- A line as the configuration leaves it: the enabled rules with a source that is not blank, in
their order, rewrite it if it looks like an import. -/
def rewriteLine (config : Config) (line : Text) : Text :=
  if ImportLine.accepts line then Pass.chained config.enabledRules line else line

/-- A text with every line as the configuration leaves it. -/
def rewrite (config : Config) (text : Text) : Text :=
  Text.joinLines (text.lines.map config.rewriteLine)

/-- Some rule of an enabled configuration fires on a line that looks like an import. -/
def FiresOn (config : Config) (line : Text) : Prop :=
  config.enabled = true ∧ ImportLine.accepts line = true ∧ Pass.Fires config.enabledRules line

/-- Some rule fires on some line of a text. -/
def Fires (config : Config) (text : Text) : Prop :=
  ∃ line ∈ text.lines, config.FiresOn line

/-- On an enabled configuration, a line on which no rule fires is left as it is. -/
theorem rewriteLine_of_not_firesOn {config : Config} (hen : config.enabled = true) {line : Text}
    (h : ¬ config.FiresOn line) : config.rewriteLine line = line := by
  unfold rewriteLine
  split
  · rename_i hacc
    exact Pass.chained_of_not_fires fun hf => h ⟨hen, hacc, hf⟩
  · rfl

end Config

namespace Pass

/-! ## Grouped records -/

/-- Records that come in groups, one for each change, in the order of the lines; a group is not
empty and leads from the text before the change to the text after it. -/
inductive Collapsed : List Replacement → List LineChange → Prop
  | nil : Collapsed [] []
  | cons {change : LineChange} {group records : List Replacement} {changes : List LineChange} :
      group ≠ [] → Linked change.line change.before group change.after →
      (∀ c ∈ changes, change.line < c.line) → Collapsed records changes →
      Collapsed (group ++ records) (change :: changes)

/-- Linked records of the line of the last change move on its text after. -/
theorem foldl_add_linked {n : Nat} {before t u : Text} {group : List Replacement}
    (h : Linked n t group u) {done : List LineChange} (hdone : ∀ c ∈ done, c.line < n) :
    group.foldl (fun changes r => LineChange.add r changes) (done ++ [⟨n, before, t⟩]) =
      done ++ [⟨n, before, u⟩] := by
  induction h with
  | nil => rfl
  | @cons r group _ _ hn _ _ ih =>
    subst hn
    rw [List.foldl_cons, LineChange.add_append _ hdone, LineChange.add, if_neg (Nat.lt_irrefl _),
      if_pos rfl, ih]

/-- A group of records behind all changes becomes one more change. -/
theorem foldl_add_group {n : Nat} {t u : Text} {group : List Replacement} (hne : group ≠ [])
    (h : Linked n t group u) {done : List LineChange} (hdone : ∀ c ∈ done, c.line < n) :
    group.foldl (fun changes r => LineChange.add r changes) done = done ++ [⟨n, t, u⟩] := by
  match h with
  | .cons (r := r) hn rfl hrest =>
    have hfirst : LineChange.add r done = done ++ [⟨n, r.before, r.after⟩] := by
      subst hn
      have happend := LineChange.add_append [] hdone
      rwa [List.append_nil] at happend
    rw [List.foldl_cons, hfirst, foldl_add_linked hrest hdone]

/-- Records in groups add the changes of the groups behind those of earlier lines. -/
theorem Collapsed.foldl_add {records : List Replacement} {changes : List LineChange}
    (h : Collapsed records changes) :
    ∀ {done : List LineChange}, (∀ d ∈ done, ∀ c ∈ changes, d.line < c.line) →
      records.foldl (fun changes r => LineChange.add r changes) done = done ++ changes := by
  induction h with
  | nil => intro done _; rw [List.foldl_nil, List.append_nil]
  | @cons change group records changes hne hlinked hlt _ ih =>
    intro done hdone
    have hbefore : ∀ d ∈ done, d.line < change.line := fun d hd => hdone d hd change List.mem_cons_self
    have hrest : ∀ d ∈ done ++ [change], ∀ c ∈ changes, d.line < c.line := by
      intro d hd c hc
      rcases List.mem_append.1 hd with hd | hd
      · exact hdone d hd c (List.mem_cons_of_mem _ hc)
      · rw [List.mem_singleton.1 hd]
        exact hlt c hc
    rw [List.foldl_append, foldl_add_group hne hlinked hbefore, ih hrest, List.append_assoc]
    rfl

/-! ## The first line that changed -/

theorem firstStale_seen (line? : Nat → Option Text) (rest : List Replacement) {n : Nat}
    {seen : List Nat} (hn : n ∈ seen) :
    ∀ {group : List Replacement}, (∀ r ∈ group, r.line = n) →
      firstStale line? (group ++ rest) seen = firstStale line? rest seen
  | [], _ => rfl
  | r :: group, h => by
    rw [List.cons_append, firstStale, if_pos (by simp [h r (List.mem_cons_self ..), hn])]
    exact firstStale_seen line? rest hn fun s hs => h s (List.mem_cons_of_mem _ hs)

/-- A group of records asks for its line once. -/
theorem firstStale_group (line? : Nat → Option Text) (rest : List Replacement) {n : Nat}
    {seen : List Nat} (hn : n ∉ seen) {group : List Replacement} {t u : Text} (hne : group ≠ [])
    (h : Linked n t group u) :
    firstStale line? (group ++ rest) seen =
      if line? n = some t then firstStale line? rest (n :: seen) else some n := by
  match h with
  | .cons hr rfl hrest =>
    rw [List.cons_append, firstStale, hr, if_neg (by simpa using hn)]
    split
    · exact firstStale_seen line? rest (List.mem_cons_self ..) hrest.line_eq
    · rfl

theorem Collapsed.firstStale_eq (line? : Nat → Option Text) {records : List Replacement}
    {changes : List LineChange} (h : Collapsed records changes) :
    ∀ seen : List Nat, (∀ c ∈ changes, c.line ∉ seen) →
      firstStale line? records seen =
        (changes.find? fun c => line? c.line ≠ some c.before).map (·.line) := by
  induction h with
  | nil => intro seen _; rfl
  | @cons change group records changes hne hlinked hlt _ ih =>
    intro seen hseen
    rw [firstStale_group line? records (hseen change (List.mem_cons_self ..)) hne hlinked]
    by_cases hread : line? change.line = some change.before
    · rw [if_pos hread, List.find?_cons_of_neg (by simp [hread]), ih]
      intro c hc
      rw [List.mem_cons, not_or]
      exact ⟨Nat.ne_of_gt (hlt c hc), hseen c (List.mem_cons_of_mem _ hc)⟩
    · rw [if_neg hread, List.find?_cons_of_pos (by simp [hread])]
      rfl

end Pass

/-! ## The pass of a configuration -/

namespace Config

/-- The records of line `n`. -/
def lineRecords (config : Config) (n : Nat) (line : Text) : List Replacement :=
  if ImportLine.accepts line then Pass.records n line config.enabledRules else []

/-- The records of the lines from the given number on. -/
def recordsFrom (config : Config) (k : Nat) (lines : List Text) : List Replacement :=
  (lines.zipIdx k).flatMap fun (line, n) => config.lineRecords n line

/-- The records of a line lead to the line as the configuration leaves it. -/
theorem lineRecords_linked (config : Config) (n : Nat) (line : Text) :
    Pass.Linked n line (config.lineRecords n line) (config.rewriteLine line) := by
  unfold lineRecords rewriteLine
  split
  · exact Pass.records_linked n config.enabledRules line
  · exact .nil line

theorem lineRecords_eq_nil_iff {config : Config} (hen : config.enabled = true) (n : Nat)
    (line : Text) : config.lineRecords n line = [] ↔ ¬ config.FiresOn line := by
  unfold lineRecords FiresOn
  split
  · rename_i hacc
    rw [Pass.records_eq_nil_iff]
    simp [hen, hacc]
  · rename_i hacc
    simp [hacc]

theorem replacements_pass {config : Config} (hen : config.enabled = true) (text : Text) :
    (config.pass text).replacements = config.recordsFrom 0 text.lines := by
  show (config.trail text).filterMap RuleEvent.replacement? = _
  rw [trail, if_pos hen, Pass.trail, List.filterMap_flatMap]
  unfold recordsFrom lineRecords
  congr 1
  funext ⟨line, n⟩
  by_cases hacc : ImportLine.accepts line
  · simp only [if_pos hacc, Pass.records]
  · simp only [if_neg hacc, List.filterMap_nil]

/-- A configuration that is off finds nothing. -/
theorem pass_of_disabled {config : Config} (h : config.enabled = false) (text : Text) :
    config.pass text = {} := by
  rw [pass, trail, if_neg (by simp [h])]
  rfl

/-- The change of one of the lines, read from number `k` on, on which a rule fires. -/
def Changes (config : Config) (k : Nat) (lines : List Text) (c : LineChange) : Prop :=
  k ≤ c.line ∧ lines[c.line - k]? = some c.before ∧ config.FiresOn c.before ∧
    c.after = config.rewriteLine c.before

/-- A change is one of the first line or one of the lines behind it. -/
theorem changes_cons (config : Config) (k : Nat) (line : Text) (lines : List Text) (c : LineChange) :
    config.Changes k (line :: lines) c ↔
      config.FiresOn line ∧ c = ⟨k, line, config.rewriteLine line⟩ ∨ config.Changes (k + 1) lines c := by
  obtain ⟨n, before, after⟩ := c
  unfold Changes
  rcases Nat.lt_trichotomy n k with hlt | rfl | hlt
  · simp [show ¬ k ≤ n by omega, show ¬ k + 1 ≤ n by omega, Nat.ne_of_lt hlt]
  · simp only [Nat.le_refl, Nat.sub_self, List.getElem?_cons_zero, Option.some.injEq,
      LineChange.mk.injEq, true_and, Nat.not_succ_le_self, false_and, or_false]
    constructor
    · rintro ⟨rfl, hfires, rfl⟩
      exact ⟨hfires, rfl, rfl⟩
    · rintro ⟨hfires, rfl, rfl⟩
      exact ⟨rfl, hfires, rfl⟩
  · rw [show n - k = (n - (k + 1)) + 1 by omega, List.getElem?_cons_succ]
    simp [show k ≤ n by omega, show k + 1 ≤ n by omega, Nat.ne_of_gt hlt]

/-- The records of lines collapse into the changes of the lines on which a rule fires. -/
theorem recordsFrom_collapsed {config : Config} (hen : config.enabled = true) :
    ∀ (k : Nat) (lines : List Text), ∃ changes, Pass.Collapsed (config.recordsFrom k lines) changes ∧
      ∀ c : LineChange, c ∈ changes ↔ config.Changes k lines c
  | k, [] => ⟨[], .nil, by simp [Changes]⟩
  | k, line :: lines => by
    obtain ⟨changes, hcol, hmem⟩ := recordsFrom_collapsed hen (k + 1) lines
    have hsplit : config.recordsFrom k (line :: lines) =
        config.lineRecords k line ++ config.recordsFrom (k + 1) lines := rfl
    have hbehind : ∀ c ∈ changes, k < c.line := fun c hc => ((hmem c).1 hc).1
    have hnil := lineRecords_eq_nil_iff hen k line
    by_cases hfires : config.FiresOn line
    · have hne : config.lineRecords k line ≠ [] := fun h => hnil.1 h hfires
      refine ⟨⟨k, line, config.rewriteLine line⟩ :: changes, ?_, fun c => ?_⟩
      · rw [hsplit]
        exact .cons hne (config.lineRecords_linked k line) hbehind hcol
      · rw [changes_cons, List.mem_cons, hmem c, and_iff_right hfires]
    · refine ⟨changes, ?_, fun c => ?_⟩
      · rw [hsplit, hnil.2 hfires]
        exact hcol
      · rw [changes_cons, hmem c, or_iff_right fun h => hfires h.1]

/-- The records of a pass collapse into its line changes: those of the lines on which a rule
fires. -/
theorem pass_collapsed (config : Config) (text : Text) :
    Pass.Collapsed (config.pass text).replacements (config.pass text).lineChanges ∧
      ∀ c : LineChange, c ∈ (config.pass text).lineChanges ↔ text.lines[c.line]? = some c.before ∧
        config.FiresOn c.before ∧ c.after = config.rewriteLine c.before := by
  cases hen : config.enabled with
  | false =>
    rw [Pass.lineChanges, pass_of_disabled hen]
    exact ⟨.nil, by simp [FiresOn, hen]⟩
  | true =>
    obtain ⟨changes, hcol, hmem⟩ := recordsFrom_collapsed hen 0 text.lines
    rw [Pass.lineChanges, replacements_pass hen, hcol.foldl_add (by simp), List.nil_append]
    exact ⟨hcol, fun c => by simpa [Changes] using hmem c⟩

end Config

namespace Pass

variable (config : Config) (text : Text)

/-- A pass changes the lines on which a rule fires, each to the line as the rules leave it. -/
theorem mem_lineChanges_iff (c : LineChange) :
    c ∈ (config.pass text).lineChanges ↔ text.lines[c.line]? = some c.before ∧
      config.FiresOn c.before ∧ c.after = config.rewriteLine c.before :=
  (config.pass_collapsed text).2 c

/-- Asking for the lines of the records asks for each changed line once, in order. -/
theorem firstStale_pass (line? : Nat → Option Text) :
    firstStale line? (config.pass text).replacements [] =
      ((config.pass text).lineChanges.find? fun c => line? c.line ≠ some c.before).map (·.line) :=
  (config.pass_collapsed text).1.firstStale_eq line? [] (by simp)

/-- The lines with a record are those on which a rule fires. -/
theorem touches_iff (n : Nat) :
    (config.pass text).Touches n ↔ ∃ line, text.lines[n]? = some line ∧ config.FiresOn line := by
  rw [touches_iff_change]
  constructor
  · rintro ⟨c, hc, rfl⟩
    obtain ⟨hline, hfires, -⟩ := (mem_lineChanges_iff config text c).1 hc
    exact ⟨c.before, hline, hfires⟩
  · rintro ⟨line, hline, hfires⟩
    exact ⟨⟨n, line, config.rewriteLine line⟩,
      (mem_lineChanges_iff config text _).2 ⟨hline, hfires, rfl⟩, rfl⟩

/-- A pass has changes exactly if some rule fires on some line. -/
theorem hasChanges_iff : (config.pass text).hasChanges = true ↔ config.Fires text := by
  have hrec : (config.pass text).hasChanges = true ↔ ∃ n, (config.pass text).Touches n := by
    show (!(config.pass text).replacements.isEmpty) = true ↔ _
    cases h : (config.pass text).replacements with
    | nil => simp [Touches, h]
    | cons r rs => simpa using ⟨r.line, r, by rw [h]; exact List.mem_cons_self .., rfl⟩
  rw [hrec]
  simp only [touches_iff]
  constructor
  · rintro ⟨n, line, hline, hfires⟩
    exact ⟨line, List.mem_of_getElem? hline, hfires⟩
  · rintro ⟨line, hline, hfires⟩
    obtain ⟨n, hn⟩ := List.getElem?_of_mem hline
    exact ⟨n, line, hn, hfires⟩

end Pass

end Repath

/-
The commit of a pass to a document that may have changed since the scan. The commit asks for every
line with a record; if one of them is gone or reads differently, the smallest such line is reported
and nothing is handed in. Otherwise the edits are handed in once, one for each line with a record,
and exactly those lines are rewritten in the text as it is now: whatever changed in the other lines
since the scan stays (`commit_pass`).
-/
import Repath.Proofs.Edit
import Repath.Proofs.LiveDocument
import Repath.Proofs.Pass.Collapse

namespace Repath

/-- What a reply makes of a commit to the document at a path. -/
def Reply.result (path : Text) : Reply → Except CommitError Unit
  | accepted => .ok ()
  | declined => .error (.declined path)
  | raised chain => .error (.raised path (Text.chain chain))

namespace Pass

variable {σ : Type}

/-! ## The two ways of a commit -/

theorem commit_of_stale {pass : Pass} {kind : LiveDocument σ} {document : σ} {n : Nat}
    (h : firstStale (kind.line? document) pass.replacements [] = some n) :
    pass.commit kind document = ⟨document, .error (.stale (kind.path document) n), []⟩ := by
  unfold commit
  simp only [h]

theorem commit_of_fresh {pass : Pass} {kind : LiveDocument σ} {document : σ}
    (h : firstStale (kind.line? document) pass.replacements [] = none) :
    pass.commit kind document = ⟨(kind.apply pass.edits document).1,
      (kind.apply pass.edits document).2.1.result (kind.path document),
      (kind.apply pass.edits document).2.2⟩ := by
  unfold commit
  simp only [h]
  obtain ⟨next, reply, remarks⟩ := kind.apply pass.edits document
  cases reply <;> rfl

/-! ## What is handed in -/

/-- Everything that a commit hands in to the holder of the document, in order. -/
def handed (pass : Pass) (kind : LiveDocument σ) (document : σ) : List (List LineEdit) :=
  (pass.commit kind.recorded (document, [])).document.2

theorem handed_of_stale {pass : Pass} {kind : LiveDocument σ} {document : σ} {n : Nat}
    (h : firstStale (kind.line? document) pass.replacements [] = some n) :
    pass.handed kind document = [] := by
  have h' : firstStale (kind.recorded.line? (document, [])) pass.replacements [] = some n := h
  rw [handed, commit_of_stale h']

theorem handed_of_fresh {pass : Pass} {kind : LiveDocument σ} {document : σ}
    (h : firstStale (kind.line? document) pass.replacements [] = none) :
    pass.handed kind document = [pass.edits] := by
  have h' : firstStale (kind.recorded.line? (document, [])) pass.replacements [] = none := h
  rw [handed, commit_of_fresh h']
  rfl

/-- Recording does not change a commit; it only adds the record. -/
theorem commit_recorded (pass : Pass) (kind : LiveDocument σ) (document : σ) :
    pass.commit kind.recorded (document, []) =
      { document := ((pass.commit kind document).document, pass.handed kind document)
        result := (pass.commit kind document).result
        remarks := (pass.commit kind document).remarks } := by
  cases h : firstStale (kind.line? document) pass.replacements [] with
  | some n =>
    have h' : firstStale (kind.recorded.line? (document, [])) pass.replacements [] = some n := h
    rw [commit_of_stale h, commit_of_stale h', handed_of_stale h]
    rfl
  | none =>
    have h' : firstStale (kind.recorded.line? (document, [])) pass.replacements [] = none := h
    rw [commit_of_fresh h, commit_of_fresh h', handed_of_fresh h]
    rfl

/-- A commit that goes through hands in the edits of the pass, once. -/
theorem handed_of_ok {pass : Pass} {kind : LiveDocument σ} {document : σ}
    (h : (pass.commit kind document).result = .ok ()) : pass.handed kind document = [pass.edits] := by
  cases hs : firstStale (kind.line? document) pass.replacements [] with
  | some n => rw [commit_of_stale hs] at h; cases h
  | none => exact handed_of_fresh hs

/-- A commit that fails leaves the text of a careful holder as it is, and has handed in nothing if
the document was stale, else the edits of the pass, once. -/
theorem commit_error {pass : Pass} {kind : LiveDocument σ} {document : σ}
    (hcare : kind.Careful document) {error : CommitError}
    (h : (pass.commit kind document).result = .error error) :
    kind.text (pass.commit kind document).document = kind.text document ∧
      ((∃ n, error = .stale (kind.path document) n) ∧ pass.handed kind document = [] ∨
        (error = .declined (kind.path document) ∨ ∃ message, error = .raised (kind.path document) message) ∧
          pass.handed kind document = [pass.edits]) := by
  cases hs : firstStale (kind.line? document) pass.replacements [] with
  | some n =>
    rw [commit_of_stale hs] at h ⊢
    cases h
    exact ⟨rfl, .inl ⟨⟨n, rfl⟩, handed_of_stale hs⟩⟩
  | none =>
    rw [commit_of_fresh hs] at h ⊢
    cases ha : (kind.apply pass.edits document).2.1 with
    | accepted => rw [ha] at h; cases h
    | declined =>
      rw [ha] at h
      cases h
      exact ⟨hcare _ (by rw [ha]; nofun), .inr ⟨.inl rfl, handed_of_fresh hs⟩⟩
    | raised chain =>
      rw [ha] at h
      cases h
      exact ⟨hcare _ (by rw [ha]; nofun), .inr ⟨.inr ⟨_, rfl⟩, handed_of_fresh hs⟩⟩

/-! ## Lines that moved on -/

/-- A line with a record that is gone from the current text or reads differently there than in the
text that was scanned. -/
def Moved (pass : Pass) (scanned current : Text) (n : Nat) : Prop :=
  pass.Touches n ∧ current.lines[n]? ≠ scanned.lines[n]?

section Scan

variable (config : Config) (scanned current : Text)

/-- The change at a line that moved on is one that is asked for in vain. -/
theorem moved_iff_change (n : Nat) :
    (config.pass scanned).Moved scanned current n ↔
      ∃ c ∈ (config.pass scanned).lineChanges, c.line = n ∧ current.lines[c.line]? ≠ some c.before := by
  unfold Moved
  rw [touches_iff_change]
  constructor
  · rintro ⟨⟨c, hc, rfl⟩, hne⟩
    rw [((mem_lineChanges_iff config scanned c).1 hc).1] at hne
    exact ⟨c, hc, rfl, hne⟩
  · rintro ⟨c, hc, rfl, hne⟩
    rw [((mem_lineChanges_iff config scanned c).1 hc).1]
    exact ⟨⟨c, hc, rfl⟩, hne⟩

/-- The commit finds the smallest line that moved on. -/
theorem firstStale_eq_some_iff (n : Nat) :
    firstStale (fun m => current.lines[m]?) (config.pass scanned).replacements [] = some n ↔
      (config.pass scanned).Moved scanned current n ∧
        ∀ m < n, ¬ (config.pass scanned).Moved scanned current m := by
  have hpair := (config.pass scanned).lineChanges_pairwise
  -- the first change asked for in vain is at a line that moved on, and so is none before it
  have hfound : ∀ k, firstStale (fun m => current.lines[m]?) (config.pass scanned).replacements []
      = some k → (config.pass scanned).Moved scanned current k ∧
        ∀ m < k, ¬ (config.pass scanned).Moved scanned current m := by
    intro k hk
    rw [firstStale_pass, Option.map_eq_some_iff] at hk
    obtain ⟨c, hfind, rfl⟩ := hk
    obtain ⟨hmoved, before, after, hsplit, hbefore⟩ := List.find?_eq_some_iff_append.1 hfind
    have hc : c ∈ (config.pass scanned).lineChanges := by rw [hsplit]; simp
    refine ⟨(moved_iff_change config scanned current _).2 ⟨c, hc, rfl, by simpa using hmoved⟩, ?_⟩
    intro m hm hmoved'
    obtain ⟨d, hd, rfl, hne⟩ := (moved_iff_change config scanned current m).1 hmoved'
    rw [hsplit] at hd hpair
    rcases List.mem_append.1 hd with hd | hd
    · exact absurd hne (by simpa using hbefore d hd)
    · rcases List.mem_cons.1 hd with rfl | hd
      · exact Nat.lt_irrefl _ hm
      · have hlt := (List.pairwise_cons.1 (List.pairwise_append.1 hpair).2.1).1 d hd
        exact Nat.lt_asymm hm hlt
  constructor
  · exact hfound n
  · rintro ⟨hmoved, hleast⟩
    cases hk : firstStale (fun m => current.lines[m]?) (config.pass scanned).replacements [] with
    | none =>
      rw [firstStale_pass, Option.map_eq_none_iff, List.find?_eq_none] at hk
      obtain ⟨c, hc, rfl, hne⟩ := (moved_iff_change config scanned current n).1 hmoved
      exact absurd hne (by simpa using hk c hc)
    | some k =>
      obtain ⟨hk1, hk2⟩ := hfound k hk
      rcases Nat.lt_trichotomy k n with h | rfl | h
      · exact absurd hk1 (hleast k h)
      · rfl
      · exact absurd hmoved (hk2 n h)

theorem firstStale_eq_none_iff :
    firstStale (fun m => current.lines[m]?) (config.pass scanned).replacements [] = none ↔
      ∀ n, ¬ (config.pass scanned).Moved scanned current n := by
  rw [firstStale_pass, Option.map_eq_none_iff, List.find?_eq_none]
  constructor
  · intro h n hmoved
    obtain ⟨c, hc, rfl, hne⟩ := (moved_iff_change config scanned current n).1 hmoved
    exact absurd hne (by simpa using h c hc)
  · intro h c hc hne
    exact h c.line ((moved_iff_change config scanned current _).2 ⟨c, hc, rfl, by simpa using hne⟩)

/-! ## The edits of a pass -/

/-- The last edit on a line with a record holds the line as the rules leave it. -/
theorem lastOn_edits {n : Nat} {line : Text} (htouch : (config.pass scanned).Touches n)
    (hline : scanned.lines[n]? = some line) :
    LineEdit.lastOn (config.pass scanned).edits n = some (config.rewriteLine line) := by
  obtain ⟨c, hc, rfl⟩ := ((config.pass scanned).touches_iff_change n).1 htouch
  obtain ⟨hbefore, -, hafter⟩ := (mem_lineChanges_iff config scanned c).1 hc
  rw [hline] at hbefore
  cases hbefore
  rw [← hafter]
  exact LineEdit.lastOn_of_mem (config.pass scanned).edits_pairwise (mem_edits_iff.2 ⟨c, hc, rfl⟩)

theorem lastOn_edits_of_not_touches {n : Nat} (h : ¬ (config.pass scanned).Touches n) :
    LineEdit.lastOn (config.pass scanned).edits n = none := by
  rw [LineEdit.lastOn_eq_none_iff]
  intro edit hedit hn
  exact h (((config.pass scanned).mem_edits_line_iff n).1 (List.mem_map.2 ⟨edit, hedit, hn⟩))

variable {config scanned current}

theorem edits_in_range (h : ∀ n, ¬ (config.pass scanned).Moved scanned current n) :
    ∀ edit ∈ (config.pass scanned).edits, edit.line < current.lines.length := by
  intro edit hedit
  have htouch := ((config.pass scanned).mem_edits_line_iff edit.line).1 (List.mem_map_of_mem hedit)
  obtain ⟨line, hline, -⟩ := (touches_iff config scanned edit.line).1 htouch
  by_contra hout
  refine h edit.line ⟨htouch, ?_⟩
  rw [hline, List.getElem?_eq_none (Nat.not_lt.1 hout)]
  nofun

/-- On a text in which no line with a record moved on, the edits of a pass apply, and they rewrite
exactly the lines with a record. -/
theorem applyAll_edits (h : ∀ n, ¬ (config.pass scanned).Moved scanned current n) :
    LineEdit.applyAll (config.pass scanned).edits current =
      .ok (Text.joinLines (current.lines.mapIdx fun n line =>
        if (config.pass scanned).Touches n then config.rewriteLine line else line)) := by
  rw [LineEdit.applyAll_ok (edits_in_range h)]
  congr 2
  refine List.ext_getElem? fun n => ?_
  rw [List.getElem?_mapIdx, List.getElem?_mapIdx]
  cases hline : current.lines[n]? with
  | none => rfl
  | some line =>
    simp only [Option.map_some, Option.some.injEq]
    by_cases htouch : (config.pass scanned).Touches n
    · have hsame : scanned.lines[n]? = some line := by
        by_contra hne
        exact h n ⟨htouch, fun heq => hne (by rw [← heq, hline])⟩
      rw [lastOn_edits config scanned htouch hsame, if_pos htouch]
      rfl
    · rw [lastOn_edits_of_not_touches config scanned htouch, if_neg htouch]
      rfl

end Scan

/-! ## The commit -/

section Plain

variable {config : Config} {scanned : Text} {kind : LiveDocument σ} {document : σ}

/-- The commit to a plain document names a line exactly if that is the smallest that moved on. -/
theorem firstStale_plain (hplain : kind.Plain document) (n : Nat) :
    firstStale (kind.line? document) (config.pass scanned).replacements [] = some n ↔
      (config.pass scanned).Moved scanned (kind.text document) n ∧
        ∀ m < n, ¬ (config.pass scanned).Moved scanned (kind.text document) m := by
  rw [show kind.line? document = fun n => (kind.text document).lines[n]? from funext hplain.line]
  exact firstStale_eq_some_iff config scanned _ n

theorem firstStale_plain_eq_none_iff (hplain : kind.Plain document) :
    firstStale (kind.line? document) (config.pass scanned).replacements [] = none ↔
      ∀ n, ¬ (config.pass scanned).Moved scanned (kind.text document) n := by
  rw [show kind.line? document = fun n => (kind.text document).lines[n]? from funext hplain.line]
  exact firstStale_eq_none_iff config scanned _

/-- A commit to a plain document in which no line with a record moved on goes through, and exactly
the lines with a record are rewritten. -/
theorem commit_of_not_moved (hplain : kind.Plain document)
    (h : ∀ n, ¬ (config.pass scanned).Moved scanned (kind.text document) n) :
    ((config.pass scanned).commit kind document).result = .ok () ∧
      kind.text ((config.pass scanned).commit kind document).document =
        Text.joinLines ((kind.text document).lines.mapIdx fun n line =>
          if (config.pass scanned).Touches n then config.rewriteLine line else line) := by
  obtain ⟨hreply, htext⟩ := hplain.takes _ _ (applyAll_edits h)
  rw [commit_of_fresh ((firstStale_plain_eq_none_iff hplain).2 h), hreply]
  exact ⟨rfl, htext⟩

end Plain

/-- A commit of the pass over one text to a plain document that now holds another. It is stale
exactly if some line with a record moved on; it names the smallest such line, hands in nothing and
leaves the document as it is. Otherwise it goes through and hands in once the edits of the pass,
with increasing lines, one for each line with a record and all of them there; the lines with a
record become what the rules make of them, and every other line stays as it is now. -/
theorem commit_pass (config : Config) (scanned : Text) (kind : LiveDocument σ) (document : σ)
    (hplain : kind.Plain document) :
    let pass := config.pass scanned
    let current := kind.text document
    let commit := pass.commit kind document
    (∀ n, commit.result = .error (.stale (kind.path document) n) ↔
      pass.Moved scanned current n ∧ ∀ m < n, ¬ pass.Moved scanned current m) ∧
    ((∃ n, pass.Moved scanned current n) →
      (∃ n, commit.result = .error (.stale (kind.path document) n)) ∧
      commit.document = document ∧ pass.handed kind document = []) ∧
    ((∀ n, ¬ pass.Moved scanned current n) →
      commit.result = .ok () ∧ pass.handed kind document = [pass.edits] ∧
      pass.edits.Pairwise (fun a b => a.line < b.line) ∧
      (∀ n, n ∈ pass.edits.map (·.line) ↔ pass.Touches n) ∧
      (∀ edit ∈ pass.edits, edit.line < current.lines.length) ∧
      kind.text commit.document = Text.joinLines (current.lines.mapIdx fun n line =>
        if pass.Touches n then config.rewriteLine line else line)) := by
  intro pass current commit
  have hstale : ∀ n, firstStale (kind.line? document) pass.replacements [] = some n →
      commit = ⟨document, .error (.stale (kind.path document) n), []⟩ := fun n h => commit_of_stale h
  refine ⟨fun n => ⟨fun hres => ?_, fun hleast => ?_⟩, fun ⟨n, hn⟩ => ?_, fun h => ?_⟩
  · cases hs : firstStale (kind.line? document) pass.replacements [] with
    | some k =>
      rw [hstale k hs] at hres
      obtain rfl : k = n := by cases hres; rfl
      exact (firstStale_plain hplain k).1 hs
    | none =>
      have hok := (commit_of_not_moved hplain ((firstStale_plain_eq_none_iff hplain).1 hs)).1
      rw [show commit.result = .ok () from hok] at hres
      cases hres
  · rw [hstale n ((firstStale_plain hplain n).2 hleast)]
  · cases hs : firstStale (kind.line? document) pass.replacements [] with
    | some k =>
      rw [hstale k hs]
      exact ⟨⟨k, rfl⟩, rfl, handed_of_stale hs⟩
    | none => exact absurd hn ((firstStale_plain_eq_none_iff hplain).1 hs n)
  · obtain ⟨hok, htext⟩ := commit_of_not_moved hplain h
    exact ⟨hok, handed_of_ok hok, edits_pairwise _, mem_edits_line_iff _, edits_in_range h,
      htext⟩

/-- A line that changed behind the scanned import does not stop the commit, and it stays. -/
theorem commit_pass_beside_edit :
    let config : Config := { rules := [⟨['r'], ['o', 'l', 'd'], ['n', 'e', 'w'], [], true⟩] }
    let scanned : Text := "\"old\"\nx".toList
    let document : ScriptedDocument := { path := ['p'], text := "\"old\"\ny\nz".toList }
    let pass := config.pass scanned
    ScriptedDocument.kind.Plain document ∧ (∀ n, ¬ pass.Moved scanned document.text n) ∧
      (pass.commit ScriptedDocument.kind document).result = .ok () ∧
      ScriptedDocument.kind.text (pass.commit ScriptedDocument.kind document).document =
        Text.joinLines (document.text.lines.mapIdx fun n line =>
          if pass.Touches n then config.rewriteLine line else line) := by
  intro config scanned document pass
  have hplain : ScriptedDocument.kind.Plain document := ScriptedDocument.plain rfl rfl
  have hread : ∀ r ∈ pass.replacements, document.text.lines[r.line]? = scanned.lines[r.line]? := by
    decide
  have hfresh : ∀ n, ¬ pass.Moved scanned document.text n :=
    fun n ⟨⟨r, hr, hn⟩, hne⟩ => hne (hn ▸ hread r hr)
  obtain ⟨hok, -, -, -, -, htext⟩ :=
    (commit_pass config scanned ScriptedDocument.kind document hplain).2.2 hfresh
  exact ⟨hplain, hfresh, hok, htext⟩

end Pass

end Repath

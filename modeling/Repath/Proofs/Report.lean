/-
A report shows what a commit does, for any pass and not only for one that was scanned: records of a
line may stand apart, and the lines may come in any order. Of the records of a line the first holds
the text before and the last the text after (`mem_lineChanges`). A commit asks for exactly the
former, line by line at the first record it meets (`firstStale_spec`), and hands in exactly the
latter, in edits that it collects on its own (`edits_eq_lineChanges`). So the two sides of the
difference in a report are the lines as a commit finds them, or it is stale, and as it leaves them
(`report_shows_commit`).
-/
import Repath.Report
import Repath.Proofs.Pass.Commit

namespace Repath

open Replacement (firstOn lastOn firstOn_cons)

namespace Pass

/-! ## What a commit asks for -/

/-- Asking for the lines of the records, but for those that were asked for, asks for each once, at
its first record: either all of them read as that record says, or the line that is found does
not. -/
theorem firstStale_spec (line? : Nat → Option Text) :
    ∀ (records : List Replacement) (seen : List Nat),
      (firstStale line? records seen = none ∧
        ∀ n ∉ seen, ∀ first, firstOn records n = some first → line? n = some first.before) ∨
      ∃ n ∉ seen, ∃ first, firstStale line? records seen = some n ∧
        firstOn records n = some first ∧ line? n ≠ some first.before
  | [], seen => .inl ⟨rfl, nofun⟩
  | r :: records, seen => by
    simp only [firstOn_cons]
    rw [firstStale]
    split
    · rename_i hseen
      have hseen : r.line ∈ seen := by simpa using hseen
      have hne : ∀ {n}, n ∉ seen → r.line ≠ n := fun hn heq => hn (heq ▸ hseen)
      rcases firstStale_spec line? records seen with ⟨hnone, hreads⟩ | ⟨n, hn, first, hsome, hfirst⟩
      · refine .inl ⟨hnone, fun n hn first hfirst => hreads n hn first ?_⟩
        rwa [if_neg (hne hn)] at hfirst
      · exact .inr ⟨n, hn, first, hsome, by rwa [if_neg (hne hn)]⟩
    · rename_i hseen
      have hseen : r.line ∉ seen := by simpa using hseen
      split
      · rename_i hread
        rcases firstStale_spec line? records (r.line :: seen) with
          ⟨hnone, hreads⟩ | ⟨n, hn, first, hsome, hfirst⟩
        · refine .inl ⟨hnone, fun n hn first hfirst => ?_⟩
          split at hfirst
          · rename_i hline
            rw [← hline, ← Option.some.inj hfirst, hread]
          · rename_i hline
            exact hreads n (by simp [hn, Ne.symm hline]) first hfirst
        · obtain ⟨hne, hn⟩ := not_or.1 (List.mem_cons.not.1 hn)
          exact .inr ⟨n, hn, first, hsome, by rwa [if_neg (Ne.symm hne)]⟩
      · rename_i hread
        exact .inr ⟨r.line, hseen, r, rfl, if_pos rfl, hread⟩

/-! ## What a report shows -/

/-- The report of a pass with changes, up to its difference. -/
def reportHead (pass : Pass) (path : Option Text) : Text :=
  pathText path ++ "// Replacements: ".toList ++ Text.ofNat pass.replacements.length ++
    ('\n' :: ("\n// Changes:\n".toList ++ pass.replacements.flatMap Replacement.reportLine ++
      "\n// Diff:\n".toList))

theorem report_of_hasChanges {pass : Pass} (h : pass.hasChanges = true) (path : Option Text) :
    pass.report path =
      pass.reportHead path ++ Diff.unified pass.textBefore pass.textAfter ++ pass.failuresText := by
  unfold report changesText reportHead
  simp only [h, if_true, List.append_assoc, List.cons_append]

theorem textAfter_eq_edits (pass : Pass) :
    pass.textAfter = pass.edits.flatMap fun edit => edit.text ++ ['\n'] := by
  rw [edits_eq_lineChanges, List.flatMap_map, textAfter]
  rfl

/-- The difference in the report of any pass with changes is between the lines that it shows and the
texts of its edits. These are the lines with a record, in their order: each is shown as it was
before its first record, and its edit has the text after its last. A commit to any document asks
for the lines exactly as they are shown; it hands in the edits if all of them read so, and else it
is stale at one that does not. If the pass was made over a text, the lines are shown as they stand
there. -/
theorem report_shows_commit (pass : Pass) (hch : pass.hasChanges = true) :
    ∃ shown : List LineChange,
      (∀ path, pass.report path = pass.reportHead path ++
        Diff.unified (shown.flatMap fun c => c.before ++ ['\n'])
          (pass.edits.flatMap fun edit => edit.text ++ ['\n']) ++ pass.failuresText) ∧
      pass.edits = shown.map (fun c => ⟨c.line, c.after⟩) ∧
      (shown.Pairwise fun a b => a.line < b.line) ∧
      (∀ c, c ∈ shown ↔ (firstOn pass.replacements c.line).map (·.before) = some c.before ∧
        (lastOn pass.replacements c.line).map (·.after) = some c.after) ∧
      (∀ {σ : Type} (kind : LiveDocument σ) (document : σ),
        ((∀ c ∈ shown, kind.line? document c.line = some c.before) →
          pass.handed kind document = [pass.edits]) ∧
        ((∃ c ∈ shown, kind.line? document c.line ≠ some c.before) →
          pass.handed kind document = [] ∧
          ∃ c ∈ shown, kind.line? document c.line ≠ some c.before ∧
            (pass.commit kind document).result = .error (.stale (kind.path document) c.line))) ∧
      ∀ (config : Config) (text : Text), pass = config.pass text →
        ∀ c ∈ shown, text.lines[c.line]? = some c.before := by
  refine ⟨pass.lineChanges, fun path => ?_, pass.edits_eq_lineChanges,
    pass.lineChanges_pairwise, pass.mem_lineChanges, fun {σ} kind document => ?_, ?_⟩
  · rw [report_of_hasChanges hch, textAfter_eq_edits]
    rfl
  · -- what a change shows of a line is what the first record of the line says of it
    have hshown : ∀ c ∈ pass.lineChanges, ∃ first, firstOn pass.replacements c.line = some first ∧
        first.before = c.before := fun c hc =>
      Option.map_eq_some_iff.1 ((pass.mem_lineChanges c).1 hc).1
    rcases firstStale_spec (kind.line? document) pass.replacements [] with
      ⟨hnone, hreads⟩ | ⟨n, -, first, hsome, hfirst, hmoved⟩
    · refine ⟨fun _ => handed_of_fresh hnone, fun ⟨c, hc, hne⟩ => ?_⟩
      obtain ⟨first, hfirst, hbefore⟩ := hshown c hc
      exact absurd (hbefore ▸ hreads c.line (by simp) first hfirst) hne
    · obtain ⟨after, hc⟩ := exists_change_of_firstOn hfirst
      refine ⟨fun hall => absurd (hall _ hc) hmoved, fun _ => ⟨handed_of_stale hsome, _, hc, hmoved, ?_⟩⟩
      rw [commit_of_stale hsome]
  · rintro config text rfl c hc
    exact ((mem_lineChanges_iff config text c).1 hc).1

/-- Two records of line 4 with one of line 1 between them, in a pass that no scan makes: the report
and the edits have line 1 first, and a document whose line 4 reads as between the two records is
stale there. -/
theorem report_shows_commit_scattered :
    let pass : Pass := { hasChanges := true, replacements := [⟨['a'], ['b'], ['r'], 4, 0, 1⟩,
      ⟨['p'], ['q'], ['r'], 1, 0, 1⟩, ⟨['b'], ['c'], ['s'], 4, 0, 1⟩] }
    let document : ScriptedDocument := { path := ['d'], text := "\np\n\n\nb".toList }
    pass.hasChanges = true ∧
      pass.report none = pass.reportHead none ++
        Diff.unified "p\na\n".toList "q\nc\n".toList ++ pass.failuresText ∧
      pass.edits = [⟨1, ['q']⟩, ⟨4, ['c']⟩] ∧
      (pass.commit ScriptedDocument.kind document).result = .error (.stale ['d'] 4) := by
  intro pass document
  obtain ⟨shown, hreport, hedits, -, hmem, hcommit, -⟩ := report_shows_commit pass rfl
  have htexts : pass.edits = [⟨1, ['q']⟩, ⟨4, ['c']⟩] := by decide
  obtain ⟨one, rest, rfl, hone, hrest⟩ := List.map_eq_cons_iff.1 (hedits.symm.trans htexts)
  obtain ⟨four, rest, rfl, hfour, hnil⟩ := List.map_eq_cons_iff.1 hrest
  obtain rfl := List.map_eq_nil_iff.1 hnil
  obtain ⟨_, p, _⟩ := one
  obtain ⟨_, a, _⟩ := four
  cases hone
  cases hfour
  obtain rfl : ['p'] = p := Option.some.inj ((hmem _).1 (List.mem_cons_self ..)).1
  obtain rfl : ['a'] = a :=
    Option.some.inj ((hmem _).1 (List.mem_cons_of_mem _ (List.mem_cons_self ..))).1
  refine ⟨rfl, hreport none, htexts, ?_⟩
  obtain ⟨-, c, hc, hmoved, hstale⟩ :=
    (hcommit ScriptedDocument.kind document).2 ⟨⟨4, ['a'], ['c']⟩, by simp, by decide⟩
  rcases List.mem_pair.1 hc with rfl | rfl
  · exact absurd (by decide) hmoved
  · exact hstale

end Pass

end Repath

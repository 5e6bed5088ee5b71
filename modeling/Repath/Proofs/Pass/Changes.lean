/-
The lines of a pass are collected twice, once as edits for a document, where a later text of a line
takes the place of an earlier one, and once as changes for a reader, which keep the text before the
first record as well. For any records, in any order and with those of a line apart, the two agree
(`edits_eq_lineChanges`), as each record does the same to both (`put_map_edit`). There is one change
for each line with a record (`touches_iff_change`), from the text before the first record of the line
to the text after the last (`mem_lineChanges`), and they are in the order of the lines
(`lineChanges_pairwise`).
-/
import Repath.Edit
import Mathlib.Data.List.Induction

namespace Repath

namespace Replacement

/-- The first record of a line, in the order of the records. -/
def firstOn (records : List Replacement) (n : Nat) : Option Replacement :=
  records.find? fun r => r.line = n

/-- The last record of a line, in the order of the records. -/
def lastOn (records : List Replacement) (n : Nat) : Option Replacement :=
  records.reverse.find? fun r => r.line = n

theorem firstOn_cons (r : Replacement) (records : List Replacement) (n : Nat) :
    firstOn (r :: records) n = if r.line = n then some r else firstOn records n := by
  unfold firstOn
  rw [List.find?_cons]
  by_cases h : r.line = n <;> simp [h]

theorem firstOn_concat (records : List Replacement) (r : Replacement) (n : Nat) :
    firstOn (records ++ [r]) n = (firstOn records n).or (if r.line = n then some r else none) := by
  unfold firstOn
  rw [List.find?_append, List.find?_singleton]
  by_cases h : r.line = n <;> simp [h]

theorem lastOn_concat (records : List Replacement) (r : Replacement) (n : Nat) :
    lastOn (records ++ [r]) n = if r.line = n then some r else lastOn records n := by
  unfold lastOn
  rw [List.reverse_concat, List.find?_cons]
  by_cases h : r.line = n <;> simp [h]

/-- A line has a first record if it has a last one. -/
theorem firstOn_eq_none_iff {records : List Replacement} {n : Nat} :
    firstOn records n = none ↔ lastOn records n = none := by
  simp [firstOn, lastOn]

end Replacement

open Replacement (firstOn lastOn firstOn_concat lastOn_concat firstOn_eq_none_iff)

/-! ## Two collections, one outcome -/

namespace LineChange

/-- What a change is for a document. -/
def edit (change : LineChange) : LineEdit :=
  ⟨change.line, change.after⟩

/-- A record does to the edits of changes what it does to the changes. -/
theorem put_map_edit (r : Replacement) : ∀ changes : List LineChange,
    LineEdit.put r.line r.after (changes.map edit) = (add r changes).map edit
  | [] => rfl
  | change :: rest => by
    rw [List.map_cons, LineEdit.put, add, show (edit change).line = change.line from rfl]
    split
    · rfl
    · split
      · rename_i hline
        rw [List.map_cons, edit, hline]
      · rw [put_map_edit r rest, List.map_cons]

/-- Records that are taken in by changes and by their edits leave changes and their edits. -/
theorem foldl_put_map_edit : ∀ (records : List Replacement) (changes : List LineChange),
    records.foldl (fun edits r => LineEdit.put r.line r.after edits) (changes.map edit) =
      (records.foldl (fun changes r => add r changes) changes).map edit
  | [], _ => rfl
  | r :: records, changes => by
    rw [List.foldl_cons, List.foldl_cons, put_map_edit, foldl_put_map_edit records]

end LineChange

/-- The edits of a pass are those of its changes. -/
theorem Pass.edits_eq_lineChanges (pass : Pass) : pass.edits = pass.lineChanges.map LineChange.edit :=
  LineChange.foldl_put_map_edit pass.replacements []

theorem Pass.mem_edits_iff {pass : Pass} {edit : LineEdit} :
    edit ∈ pass.edits ↔ ∃ change ∈ pass.lineChanges, change.edit = edit := by
  rw [edits_eq_lineChanges, List.mem_map]

/-! ## One change for each line -/

namespace LineChange

variable {r : Replacement} {changes : List LineChange}

/-- The changes are in the order of their lines, with one for each line. -/
def Ordered (changes : List LineChange) : Prop :=
  changes.Pairwise fun a b => a.line < b.line

theorem line_of_mem_add {c : LineChange} :
    ∀ {changes : List LineChange}, c ∈ add r changes → c.line = r.line ∨ ∃ d ∈ changes, d.line = c.line
  | [], h => by
    rw [add, List.mem_singleton] at h
    exact .inl (by rw [h])
  | change :: rest, h => by
    rw [add] at h
    split at h
    · rcases List.mem_cons.1 h with rfl | h
      · exact .inl rfl
      · exact .inr ⟨c, h, rfl⟩
    · split at h
      · rename_i hline
        rcases List.mem_cons.1 h with rfl | h
        · exact .inl hline.symm
        · exact .inr ⟨c, List.mem_cons_of_mem _ h, rfl⟩
      · rcases List.mem_cons.1 h with rfl | h
        · exact .inr ⟨c, List.mem_cons_self, rfl⟩
        · rcases line_of_mem_add h with h | ⟨d, hd, hline⟩
          · exact .inl h
          · exact .inr ⟨d, List.mem_cons_of_mem _ hd, hline⟩

theorem ordered_add : ∀ {changes : List LineChange}, Ordered changes → Ordered (add r changes)
  | [], _ => List.pairwise_singleton ..
  | change :: rest, h => by
    obtain ⟨hfirst, hrest⟩ := List.pairwise_cons.1 h
    rw [add]
    split
    · rename_i hlt
      refine List.pairwise_cons.2 ⟨fun c hc => ?_, h⟩
      rcases List.mem_cons.1 hc with rfl | hc
      · exact hlt
      · exact Nat.lt_trans hlt (hfirst c hc)
    · split
      · exact List.pairwise_cons.2 ⟨hfirst, hrest⟩
      · refine List.pairwise_cons.2 ⟨fun c hc => ?_, ordered_add hrest⟩
        rcases line_of_mem_add hc with hline | ⟨d, hd, hline⟩
        · omega
        · exact hline ▸ hfirst d hd

/-- Changes of lines before that of a record stay as they are. -/
theorem add_append (behind : List LineChange) : ∀ {done : List LineChange},
    (∀ c ∈ done, c.line < r.line) → add r (done ++ behind) = done ++ add r behind
  | [], _ => rfl
  | change :: done, h => by
    have hlt : change.line < r.line := h change List.mem_cons_self
    rw [List.cons_append, add, if_neg (by omega), if_neg (by omega),
      add_append behind fun c hc => h c (List.mem_cons_of_mem _ hc), List.cons_append]

/-- The change of a line. -/
def onLine (changes : List LineChange) (n : Nat) : Option LineChange :=
  changes.find? fun c => c.line = n

theorem onLine_cons (change : LineChange) (rest : List LineChange) (n : Nat) :
    onLine (change :: rest) n = if change.line = n then some change else onLine rest n := by
  unfold onLine
  rw [List.find?_cons]
  by_cases h : change.line = n <;> simp [h]

theorem onLine_eq_none {n : Nat} (h : ∀ c ∈ changes, n < c.line) : onLine changes n = none :=
  List.find?_eq_none.2 fun c hc => by simpa using Nat.ne_of_gt (h c hc)

theorem onLine_eq_some_iff :
    ∀ {changes : List LineChange}, Ordered changes → ∀ c, onLine changes c.line = some c ↔ c ∈ changes
  | [], _, c => by simp [onLine]
  | change :: rest, h, c => by
    obtain ⟨hfirst, hrest⟩ := List.pairwise_cons.1 h
    rw [onLine_cons, List.mem_cons]
    split
    · rename_i hline
      have hnot : c ∉ rest := fun hc => Nat.ne_of_lt (hfirst c hc) hline
      simp [hnot, eq_comm]
    · rename_i hline
      have hne : c ≠ change := fun heq => hline (heq ▸ rfl)
      simp [hne, onLine_eq_some_iff hrest]

/-- A record gives its line the text after, and the text before only if the line has no change
yet. -/
theorem onLine_add (n : Nat) : ∀ {changes : List LineChange}, Ordered changes →
    onLine (add r changes) n = if r.line = n then
      some ⟨n, ((onLine changes n).map (·.before)).getD r.before, r.after⟩ else onLine changes n
  | [], _ => by
    rw [add, onLine_cons]
    split
    · rename_i hn
      subst hn
      rfl
    · rfl
  | change :: rest, h => by
    obtain ⟨hfirst, hrest⟩ := List.pairwise_cons.1 h
    rw [add]
    split
    · rename_i hlt
      -- the record goes in front of all changes, so none of them is of its line
      have hnone : onLine (change :: rest) r.line = none := by
        refine onLine_eq_none fun c hc => ?_
        rcases List.mem_cons.1 hc with rfl | hc
        · exact hlt
        · exact Nat.lt_trans hlt (hfirst c hc)
      rw [onLine_cons]
      split
      · rename_i hn
        subst hn
        rw [hnone]
        rfl
      · rfl
    · split
      · rename_i hline
        rw [onLine_cons, onLine_cons, ← hline]
        split
        · rename_i hn
          subst hn
          rfl
        · rfl
      · rename_i hline
        rw [onLine_cons, onLine_add n hrest, onLine_cons]
        by_cases hn : change.line = n
        · rw [if_pos hn, if_pos hn, if_neg fun hr => hline (hr.trans hn.symm)]
        · rw [if_neg hn, if_neg hn]

theorem ordered_foldl_add (records : List Replacement) :
    Ordered (records.foldl (fun changes r => add r changes) []) :=
  List.foldlRecOn records _ List.Pairwise.nil fun _ h _ _ => ordered_add h

/-- Of the records of a line the first gives its change the text before, and the last the text
after. -/
theorem onLine_foldl_add (records : List Replacement) (n : Nat) :
    onLine (records.foldl (fun changes r => add r changes) []) n = (firstOn records n).bind fun first =>
      (lastOn records n).map fun last => ⟨n, first.before, last.after⟩ := by
  induction records using List.reverseRecOn with
  | nil => rfl
  | append_singleton records r ih =>
    rw [List.foldl_append, List.foldl_cons, List.foldl_nil, onLine_add n (ordered_foldl_add records),
      ih, firstOn_concat, lastOn_concat]
    split
    · cases hfirst : firstOn records n with
      | none => rfl
      | some first =>
        cases hlast : lastOn records n with
        | none => rw [firstOn_eq_none_iff.2 hlast] at hfirst; cases hfirst
        | some last => rfl
    · rw [Option.or_none]

end LineChange

namespace Pass

/-- The changes are in the order of their lines, with one for each line. -/
theorem lineChanges_pairwise (pass : Pass) :
    pass.lineChanges.Pairwise fun a b => a.line < b.line :=
  LineChange.ordered_foldl_add pass.replacements

/-- A line is changed from the text before its first record to the text after its last. -/
theorem mem_lineChanges (pass : Pass) (c : LineChange) :
    c ∈ pass.lineChanges ↔ (firstOn pass.replacements c.line).map (·.before) = some c.before ∧
      (lastOn pass.replacements c.line).map (·.after) = some c.after := by
  rw [← LineChange.onLine_eq_some_iff pass.lineChanges_pairwise, lineChanges,
    LineChange.onLine_foldl_add]
  obtain ⟨n, before, after⟩ := c
  cases firstOn pass.replacements n <;> cases lastOn pass.replacements n <;> simp

/-- A line with a first record has a change, from the text before that record. -/
theorem exists_change_of_firstOn {pass : Pass} {n : Nat} {first : Replacement}
    (h : firstOn pass.replacements n = some first) :
    ∃ after, ⟨n, first.before, after⟩ ∈ pass.lineChanges := by
  obtain ⟨last, hlast⟩ : ∃ last, lastOn pass.replacements n = some last := by
    rw [← Option.ne_none_iff_exists', ne_eq, ← firstOn_eq_none_iff, h]
    nofun
  refine ⟨last.after, (pass.mem_lineChanges _).2 ?_⟩
  rw [h, hlast]
  exact ⟨rfl, rfl⟩

/-- A pass has a record of a line. -/
def Touches (pass : Pass) (n : Nat) : Prop :=
  ∃ r ∈ pass.replacements, r.line = n

instance (pass : Pass) (n : Nat) : Decidable (pass.Touches n) :=
  inferInstanceAs (Decidable (∃ r ∈ pass.replacements, r.line = n))

theorem touches_iff_change (pass : Pass) (n : Nat) :
    pass.Touches n ↔ ∃ c ∈ pass.lineChanges, c.line = n := by
  constructor
  · rintro ⟨r, hr, hline⟩
    obtain ⟨first, hfirst⟩ : ∃ first, firstOn pass.replacements n = some first :=
      Option.isSome_iff_exists.1 (List.find?_isSome.2 ⟨r, hr, by simpa using hline⟩)
    obtain ⟨after, hmem⟩ := exists_change_of_firstOn hfirst
    exact ⟨_, hmem, rfl⟩
  · rintro ⟨c, hc, rfl⟩
    obtain ⟨first, hfirst, -⟩ := Option.map_eq_some_iff.1 ((pass.mem_lineChanges c).1 hc).1
    exact ⟨first, List.mem_of_find?_eq_some hfirst, by simpa using List.find?_some hfirst⟩

/-! ## The edits -/

theorem edits_pairwise (pass : Pass) : pass.edits.Pairwise fun a b => a.line < b.line := by
  rw [edits_eq_lineChanges]
  exact List.pairwise_map.2 pass.lineChanges_pairwise

theorem mem_edits_line_iff (pass : Pass) (n : Nat) :
    n ∈ pass.edits.map (·.line) ↔ pass.Touches n := by
  rw [touches_iff_change, edits_eq_lineChanges]
  simp [LineChange.edit]

end Pass

end Repath

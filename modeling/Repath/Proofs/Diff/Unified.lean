/-
The printed difference is a patch. What is printed and what is left out make up one sequence of
lines with signs that leads from the old text to the new one; what is left out is kept on both
sides, and groups are set apart exactly where something between them is left out
(`exists_patch_unified`).
-/
import Repath.Proofs.Diff.Blocks
import Repath.Proofs.Diff.Compaction

namespace Repath.Diff

/-- A group of lines that is shown, and the kept lines behind it that are not. -/
structure Hunk where
  shown : List Entry
  elided : List Text

namespace Hunk

def entries (h : Hunk) : List Entry :=
  h.shown ++ signed .same h.elided

def text (h : Hunk) : Text :=
  h.shown.flatMap Entry.text

end Hunk

/-- Lines that hold a change, with no more kept lines on either side of it than are shown. -/
structure Framed (shown : List Entry) : Prop where
  changed : ∃ e ∈ shown, e.isSame = false
  first : (shown.takeWhile Entry.isSame).length ≤ context
  last : (shown.reverse.takeWhile Entry.isSame).length ≤ context

/-- A difference that was printed: kept lines that are left out, then groups. -/
structure Patch where
  lead : List Text
  hunks : List Hunk

namespace Patch

/-- All lines in order, shown or not. -/
def entries (p : Patch) : List Entry :=
  signed .same p.lead ++ p.hunks.flatMap Hunk.entries

def text (p : Patch) : Text :=
  separator.intercalate (p.hunks.map Hunk.text)

/-- The lines lead from the old ones to the new ones, something is left out between any two groups,
and each group holds a change and no more kept lines around it than are shown. -/
structure Sound (p : Patch) (old new : List Text) : Prop where
  old : Entry.old p.entries = old
  new : Entry.new p.entries = new
  gaps : ∀ h ∈ p.hunks.dropLast, h.elided ≠ []
  framed : ∀ h ∈ p.hunks, Framed h.shown

end Patch

/-! ## Blocks around changes -/

/-- Kept lines at the start of blocks are no more than are shown. -/
def Led (bs : List Block) : Prop :=
  ∀ ls, bs.head? = some (.same ls) → ls.length ≤ context

/-- Blocks with a change, and no more kept lines around all changes than are shown. -/
structure Window (bs : List Block) : Prop where
  tidy : Tidy bs
  first : Led bs
  last : Led bs.reverse
  changed : ∃ b ∈ bs, b.isSame = false

section

variable {as bs rest : List Block} {ls : List Text}

theorem Tidy.reverse (h : Tidy bs) : Tidy bs.reverse where
  filled b hb := h.filled b (List.mem_reverse.1 hb)
  alternate := by
    rw [List.map_reverse, List.isChain_reverse]
    simpa only [ne_comm] using h.alternate

theorem Tidy.left (h : Tidy (as ++ bs)) : Tidy as where
  filled b hb := h.filled b (List.mem_append_left bs hb)
  alternate := by
    have halternate := h.alternate
    rw [List.map_append] at halternate
    exact halternate.left_of_append

theorem Tidy.right (h : Tidy (as ++ bs)) : Tidy bs where
  filled b hb := h.filled b (List.mem_append_right as hb)
  alternate := by
    have halternate := h.alternate
    rw [List.map_append] at halternate
    exact halternate.right_of_append

/-- Behind kept lines there is a change, if there is anything. -/
theorem Tidy.isSame_head_of_same (h : Tidy (.same ls :: rest)) {b : Block}
    (hb : b ∈ rest.head?) : b.isSame = false := by
  have halternate := h.alternate
  rw [List.map_cons, List.isChain_cons] at halternate
  have hne := halternate.1 b.isSame (by rw [List.head?_map, hb]; rfl)
  exact Bool.eq_false_iff.2 hne.symm

theorem Tidy.changed_of_same (h : Tidy (.same ls :: rest)) (hrest : rest ≠ []) :
    ∃ b ∈ rest, b.isSame = false :=
  ⟨rest.head hrest, List.head_mem hrest, h.isSame_head_of_same (List.head?_eq_some_head hrest)⟩

/-- Blocks without a change are no more than one. -/
theorem Tidy.unchanged (h : Tidy bs) (hsame : ∀ b ∈ bs, b.isSame = true) :
    bs = [] ∨ ∃ ls, bs = [.same ls] := by
  cases bs with
  | nil => exact .inl rfl
  | cons b bs =>
    cases b with
    | change gone added => exact absurd (hsame _ List.mem_cons_self) Bool.false_ne_true
    | same ls =>
      refine .inr ⟨ls, ?_⟩
      by_contra hne
      have hrest : bs ≠ [] := fun hnil => hne (hnil ▸ rfl)
      obtain ⟨b, hb, hchanged⟩ := h.changed_of_same hrest
      exact absurd (hsame b (List.mem_cons_of_mem _ hb)) (by simp [hchanged])

/-- Entries of blocks in any order inside of the blocks start with no more kept lines than the
blocks do. -/
theorem length_takeWhile_isSame_le {f : Block → List Entry} (hf : ∀ b, (f b).Perm b.entries)
    (h : Tidy bs) (hled : Led bs) :
    ((bs.flatMap f).takeWhile Entry.isSame).length ≤ context := by
  have hkind (b : Block) (e : Entry) (he : e ∈ f b) : e.isSame = b.isSame :=
    Block.isSame_of_mem_entries ((hf b).mem_iff.1 he)
  have hfilled (b : Block) (hb : b ∈ bs) : f b ≠ [] := fun hnil =>
    h.filled b hb (List.nil_perm.1 (hnil ▸ hf b))
  -- Nothing is taken where a change comes first.
  have hnone (cs : List Block) (hcs : ∀ b ∈ cs, f b ≠ [])
      (hhead : ∀ b ∈ cs.head?, b.isSame = false) : (cs.flatMap f).takeWhile Entry.isSame = [] := by
    cases cs with
    | nil => rfl
    | cons b cs =>
      obtain ⟨e, es, hes⟩ := List.exists_cons_of_ne_nil (hcs b List.mem_cons_self)
      have he : e.isSame = false := by
        rw [hkind b e (by simp [hes])]
        exact hhead b rfl
      rw [List.flatMap_cons, hes, List.cons_append, List.takeWhile_cons_of_neg (by simp [he])]
  cases bs with
  | nil => exact Nat.zero_le _
  | cons b rest =>
    cases b with
    | change gone added =>
      rw [hnone _ hfilled (by simp [Block.isSame])]
      exact Nat.zero_le _
    | same ls =>
      have hall : ∀ e ∈ f (.same ls), e.isSame = true := fun e he => hkind _ e he
      have hlen := (hf (.same ls)).length_eq
      rw [Block.entries, length_signed] at hlen
      rw [List.flatMap_cons, List.takeWhile_append_of_pos hall,
        hnone rest (fun b hb => hfilled b (List.mem_cons_of_mem _ hb))
          (fun b hb => h.isSame_head_of_same hb), List.append_nil, hlen]
      exact hled ls rfl

theorem Window.framed (h : Window bs) : Framed (bs.flatMap Block.entries) where
  changed := by
    obtain ⟨b, hb, hchanged⟩ := h.changed
    obtain ⟨e, he⟩ := List.exists_mem_of_ne_nil _ (h.tidy.filled b hb)
    exact ⟨e, List.mem_flatMap.2 ⟨b, hb, he⟩, Block.isSame_of_mem_entries he ▸ hchanged⟩
  first := length_takeWhile_isSame_le (fun _ => .refl _) h.tidy h.first
  last := by
    rw [List.reverse_flatMap]
    exact length_takeWhile_isSame_le (fun b => List.reverse_perm b.entries) h.tidy.reverse h.last

end

/-! ## Groups -/

/-- Hunks show groups of blocks and make up a sequence of lines. -/
structure Shows (hunks : List Hunk) (shown : List (List Block)) (entries : List Entry) : Prop where
  some : hunks ≠ []
  shown : hunks.map Hunk.shown = shown.map (·.flatMap Block.entries)
  entries : hunks.flatMap Hunk.entries = entries
  gaps : ∀ h ∈ hunks.dropLast, h.elided ≠ []
  framed : ∀ h ∈ hunks, Framed h.shown

theorem Window.shows {bs : List Block} (h : Window bs) (tail : List Text) :
    Shows [⟨bs.flatMap Block.entries, tail⟩] [bs]
      (bs.flatMap Block.entries ++ signed .same tail) where
  some := List.cons_ne_nil _ _
  shown := rfl
  entries := by simp [Hunk.entries]
  gaps := by simp
  framed := by simpa using h.framed

/-- Kept lines are left out between a group and those behind it. -/
theorem Shows.cons {hunks : List Hunk} {shown : List (List Block)} {entries : List Entry}
    (h : Shows hunks shown entries) {bs : List Block} (hbs : Window bs) {gap : List Text}
    (hgap : gap ≠ []) : Shows (⟨bs.flatMap Block.entries, gap⟩ :: hunks) (bs :: shown)
      (bs.flatMap Block.entries ++ (signed .same gap ++ entries)) where
  some := List.cons_ne_nil _ _
  shown := by rw [List.map_cons, List.map_cons, h.shown]
  entries := by rw [List.flatMap_cons, h.entries, Hunk.entries, List.append_assoc]
  gaps := by
    rw [List.dropLast_cons_of_ne_nil h.some]
    exact List.forall_mem_cons.2 ⟨hgap, h.gaps⟩
  framed := List.forall_mem_cons.2 ⟨hbs.framed, h.framed⟩

section

variable {as rest : List Block} {ls : List Text}

theorem take_context_ne_nil (h : ls ≠ []) : ls.take context ≠ [] := by
  have hcontext : context ≠ 0 := Nat.succ_ne_zero 2
  simpa [List.take_eq_nil_iff, hcontext] using h

theorem length_lastLines (ls : List Text) : (lastLines ls).length = min ls.length context := by
  unfold lastLines
  rw [List.length_drop]
  omega

theorem lastLines_ne_nil (h : ls ≠ []) : lastLines ls ≠ [] := by
  have hcontext : 0 < context := Nat.zero_lt_succ 2
  have hlength := List.length_pos_iff.2 h
  rw [← List.length_pos_iff, length_lastLines]
  omega

theorem Tidy.ne_nil_of_mem {bs : List Block} (h : Tidy bs) (hmem : .same ls ∈ bs) : ls ≠ [] :=
  signed_eq_nil_iff.not.1 (h.filled (.same ls) hmem)

/-- Kept lines that end blocks may be cut behind the first of them. -/
theorem Tidy.window_take (h : Tidy (as ++ [.same ls])) (has : as ≠ []) (hled : Led as) :
    Window (as ++ [.same (ls.take context)]) where
  tidy := h.exchange (signed_eq_nil_iff.not.2 (take_context_ne_nil (h.ne_nil_of_mem (by simp)))) rfl
  first ms hms := hled ms (by rwa [List.head?_append_of_ne_nil _ has] at hms)
  last ms hms := by
    rw [List.reverse_concat, List.head?_cons] at hms
    cases hms
    exact List.length_take_le _ _
  changed := by
    have hback := h.reverse
    rw [List.reverse_concat] at hback
    obtain ⟨b, hb, hchanged⟩ := hback.changed_of_same (List.reverse_ne_nil_iff.2 has)
    exact ⟨b, List.mem_append_left _ (List.mem_reverse.1 hb), hchanged⟩

/-- Kept lines that start blocks may be cut in front of the last of them. -/
theorem Tidy.window_lastLines (h : Tidy (.same ls :: rest)) (hrest : rest ≠ [])
    (hled : Led rest.reverse) : Window (.same (lastLines ls) :: rest) where
  tidy :=
    h.grow (signed_eq_nil_iff.not.2 (lastLines_ne_nil (h.ne_nil_of_mem List.mem_cons_self))) rfl
  first ms hms := by
    cases hms
    rw [length_lastLines]
    exact Nat.min_le_right _ _
  last ms hms := hled ms (by
    rwa [List.reverse_cons, List.head?_append_of_ne_nil _ (List.reverse_ne_nil_iff.2 hrest)] at hms)
  changed := by
    obtain ⟨b, hb, hchanged⟩ := h.changed_of_same hrest
    exact ⟨b, List.mem_cons_of_mem _ hb, hchanged⟩

/-- A window is cut in two at kept lines that are longer than what is shown of them at both
ends. -/
theorem Window.cut (h : Window (as ++ .same ls :: rest)) (hlong : context < ls.length) :
    Window (as ++ [.same (ls.take context)]) ∧ Window (.same (lastLines ls) :: rest) := by
  have has : as ≠ [] := by
    rintro rfl
    exact absurd (h.first ls rfl) (Nat.not_le.2 hlong)
  have hrest : rest ≠ [] := by
    rintro rfl
    exact absurd (h.last ls (by simp)) (Nat.not_le.2 hlong)
  constructor
  · have htidy := h.tidy
    rw [List.append_cons] at htidy
    exact htidy.left.window_take has fun ms hms =>
      h.first ms (by rwa [List.head?_append_of_ne_nil _ has])
  · exact h.tidy.right.window_lastLines hrest fun ms hms => h.last ms (by
      rwa [List.reverse_append, List.reverse_cons, List.append_assoc,
        List.head?_append_of_ne_nil _ (List.reverse_ne_nil_iff.2 hrest)])

/-- What is shown of long kept lines at both ends, and what is between. -/
theorem take_append_gap (hlong : 2 * context < ls.length) :
    ls = ls.take context ++ ((ls.drop context).take (ls.length - 2 * context) ++ lastLines ls) := by
  have hlast : lastLines ls = (ls.drop context).drop (ls.length - 2 * context) := by
    rw [lastLines, List.drop_drop]
    congr 1
    omega
  rw [hlast, List.take_append_drop, List.take_append_drop]

end

/-- The groups of a window are shown by hunks that make up all of its lines. -/
theorem exists_shows_groupsFrom (tail : List Text) (group bs : List Block)
    (h : Window (group.reverse ++ bs)) :
    ∃ hunks, Shows hunks (groupsFrom group bs)
      ((group.reverse ++ bs).flatMap Block.entries ++ signed .same tail) := by
  fun_induction groupsFrom group bs with
  -- without blocks, or with kept lines alone, there would be no change in the window
  | case1 =>
    obtain ⟨b, hb, -⟩ := h.changed
    exact absurd hb List.not_mem_nil
  | case2 ls =>
    obtain ⟨b, hb, hchanged⟩ := h.changed
    rw [List.reverse_singleton, List.append_nil, List.mem_singleton] at hb
    subst hb
    exact absurd hchanged.symm Bool.false_ne_true
  | case3 group _ _ =>
    rw [List.append_nil] at h ⊢
    exact ⟨_, h.shows tail⟩
  | case4 group ls rest hlong ih =>
    -- both halves are windows again: the group is shown, and the other half by induction
    obtain ⟨hfirst, hsecond⟩ := h.cut (by omega)
    obtain ⟨hunks, hshows⟩ := ih hsecond
    have hgap : (ls.drop context).take (ls.length - 2 * context) ≠ [] := by
      rw [Ne, ← List.length_eq_zero_iff, List.length_take, List.length_drop]
      omega
    have hparts : signed .same ls = signed .same (ls.take context) ++
        (signed .same ((ls.drop context).take (ls.length - 2 * context)) ++
          signed .same (lastLines ls)) := by
      rw [← signed_append, ← signed_append, ← take_append_gap hlong]
    rw [List.reverse_cons]
    have hcons := hshows.cons hfirst hgap
    exact ⟨_, by simpa [Block.entries, hparts] using hcons⟩
  | case5 group ls rest _ ih =>
    rw [List.append_cons, ← List.reverse_cons] at h ⊢
    exact ih h
  | case6 group b rest _ ih =>
    rw [List.append_cons, ← List.reverse_cons] at h ⊢
    exact ih h

/-! ## Trimming -/

section

variable {bs : List Block}

theorem trimLast_concat_same (as : List Block) (ls : List Text) :
    trimLast (as ++ [.same ls]) = as ++ [.same (ls.take context)] := by
  induction as with
  | nil => rfl
  | cons b as ih => rw [List.cons_append, trimLast, ih, List.cons_append]; simp

theorem trimLast_concat_change (as : List Block) (gone added : List Text) :
    trimLast (as ++ [.change gone added]) = as ++ [.change gone added] := by
  induction as with
  | nil => rfl
  | cons b as ih => rw [List.cons_append, trimLast, ih]; simp

/-- Of kept lines at the start what is left out stands in front. -/
theorem exists_lead (h : Tidy bs) : ∃ lead, Tidy (trimFirst bs) ∧ Led (trimFirst bs) ∧
    (trimFirst bs).map Block.isSame = bs.map Block.isSame ∧
    bs.flatMap Block.entries = signed .same lead ++ (trimFirst bs).flatMap Block.entries := by
  fun_cases trimFirst bs with
  | case1 ls rest =>
    refine ⟨ls.take (ls.length - context), ?_, ?_, rfl, ?_⟩
    · have hls := lastLines_ne_nil (h.ne_nil_of_mem List.mem_cons_self)
      exact h.grow (signed_eq_nil_iff.not.2 hls) rfl
    · rintro ms ⟨⟩
      rw [length_lastLines]
      exact Nat.min_le_right _ _
    · rw [List.flatMap_cons, List.flatMap_cons, ← List.append_assoc, Block.entries, Block.entries,
        ← signed_append, lastLines, List.take_append_drop]
  | case2 _ hkind =>
    refine ⟨[], h, fun ls hls => ?_, rfl, rfl⟩
    obtain ⟨rest, rfl⟩ := List.head?_eq_some_iff.1 hls
    exact absurd rfl (hkind ls rest)

/-- The blocks that are shown are a window, with kept lines left out on both sides of it. -/
theorem exists_window (h : Tidy bs) (hchanged : ∃ b ∈ bs, b.isSame = false) :
    ∃ lead tail, Window (trimLast (trimFirst bs)) ∧ bs.flatMap Block.entries =
      signed .same lead ++
        ((trimLast (trimFirst bs)).flatMap Block.entries ++ signed .same tail) := by
  obtain ⟨lead, htidy, hled, hkinds, hlead⟩ := exists_lead h
  have hchange : false ∈ (trimFirst bs).map Block.isSame := by
    rw [hkinds]
    exact List.mem_map.2 hchanged
  -- what trimming at the end does depends on the last block alone
  generalize trimFirst bs = cs at *
  obtain rfl | ⟨as, b, rfl⟩ := List.eq_nil_or_concat' cs
  · exact absurd hchange List.not_mem_nil
  · cases b with
    | change gone added =>
      rw [trimLast_concat_change]
      refine ⟨lead, [], ⟨htidy, hled, ?_, List.mem_map.1 hchange⟩, by simpa using hlead⟩
      intro ls hls
      rw [List.reverse_concat] at hls
      cases hls
    | same ls =>
      have has : as ≠ [] := by
        rintro rfl
        exact absurd hchange (by simp [Block.isSame])
      rw [trimLast_concat_same]
      refine ⟨lead, ls.drop context, htidy.window_take has fun ms hms =>
        hled ms (by rwa [List.head?_append_of_ne_nil _ has]), ?_⟩
      rw [hlead, List.flatMap_append, List.flatMap_append, List.append_assoc,
        List.flatMap_singleton, List.flatMap_singleton, Block.entries, Block.entries,
        ← signed_append, List.take_append_drop]

theorem groups_of_unchanged (h : Tidy bs) (hsame : ∀ b ∈ bs, b.isSame = true) : groups bs = [] := by
  obtain rfl | ⟨ls, rfl⟩ := h.unchanged hsame
  · rfl
  · have hshort : ¬2 * context < ((lastLines ls).take context).length := by
      rw [List.length_take]
      omega
    rw [groups, trimFirst, trimLast, groupsFrom, if_neg hshort, groupsFrom]

/-- The groups of blocks are those of a patch with the lines of the blocks. -/
theorem exists_patch (h : Tidy bs) : ∃ p : Patch,
    p.hunks.map Hunk.shown = (groups bs).map (·.flatMap Block.entries) ∧
      p.Sound (Entry.old (bs.flatMap Block.entries)) (Entry.new (bs.flatMap Block.entries)) := by
  by_cases hsame : ∀ b ∈ bs, b.isSame = true
  · rw [groups_of_unchanged h hsame]
    obtain rfl | ⟨ls, rfl⟩ := h.unchanged hsame
    · exact ⟨⟨[], []⟩, rfl, rfl, rfl, by simp, by simp⟩
    · exact ⟨⟨ls, []⟩, rfl, rfl, rfl, by simp, by simp⟩
  · obtain ⟨lead, tail, hwindow, hentries⟩ := exists_window h (by simpa using hsame)
    obtain ⟨hunks, hshows⟩ := exists_shows_groupsFrom tail [] _ hwindow
    have hsequence : bs.flatMap Block.entries = Patch.entries ⟨lead, hunks⟩ := by
      rw [hentries, Patch.entries, hshows.entries, List.reverse_nil, List.nil_append]
    exact ⟨⟨lead, hunks⟩, hshows.shown, congrArg Entry.old hsequence.symm,
      congrArg Entry.new hsequence.symm, hshows.gaps, hshows.framed⟩

end

/-! ## Printing -/

theorem Framed.flatMap_text_ne_nil {shown : List Entry} (h : Framed shown) :
    shown.flatMap Entry.text ≠ [] := by
  obtain ⟨e, he, -⟩ := h.changed
  intro hnil
  exact absurd (List.flatMap_eq_nil_iff.1 hnil e he) (List.cons_ne_nil _ _)

/-- A patch prints nothing only if it has no groups, since each group shows a change. -/
theorem Patch.Sound.hunks_eq_nil {p : Patch} {old new : List Text} (h : p.Sound old new)
    (hempty : p.text = []) : p.hunks = [] := by
  obtain ⟨lead, hunks⟩ := p
  cases hunks with
  | nil => rfl
  | cons hunk hunks =>
    have hne : hunk.text ≠ [] := (h.framed hunk List.mem_cons_self).flatMap_text_ne_nil
    cases hunks with
    | nil => exact absurd (by simpa [Patch.text] using hempty) hne
    | cons next hunks => exact absurd hempty (by simp [Patch.text, hne])

theorem flatMap_text_eq (group : List Block) :
    group.flatMap Block.text = (group.flatMap Block.entries).flatMap Entry.text := by
  rw [List.flatMap_assoc, funext Block.text_eq]

theorem map_text_of_map_shown {hunks : List Hunk} {shown : List (List Block)}
    (h : hunks.map Hunk.shown = shown.map (·.flatMap Block.entries)) :
    shown.map (·.flatMap Block.text) = hunks.map Hunk.text := by
  rw [funext flatMap_text_eq]
  calc shown.map (fun group => (group.flatMap Block.entries).flatMap Entry.text)
      = (shown.map (·.flatMap Block.entries)).map (·.flatMap Entry.text) := by
        rw [List.map_map]
        rfl
    _ = (hunks.map Hunk.shown).map (·.flatMap Entry.text) := by rw [h]
    _ = hunks.map Hunk.text := by
        rw [List.map_map]
        rfl

theorem unified_self (t : Text) : unified t t = [] := by
  have hleads := leads_compact (leads_shortestScript (lines t) (lines t))
  have hgroups : groups (blocks (compact (shortestScript (lines t) (lines t)))) = [] := by
    refine groups_of_unchanged (tidy_blocks hleads.busy) ?_
    rw [shortestScript_self, compact_keep]
    unfold opOn
    split <;> simp [blocks, Block.merge, Block.isSame]
  rw [unified, hgroups]
  rfl

/-- The printed difference of two texts is a patch between their lines, and it is empty exactly if
the texts are the same. -/
theorem exists_patch_unified (old new : Text) : ∃ (p : Patch) (oldLines newLines : List Text),
    Cut old oldLines ∧ Cut new newLines ∧ p.Sound oldLines newLines ∧
      unified old new = p.text ∧ (unified old new = [] ↔ old = new) := by
  have hleads := leads_compact (leads_shortestScript (lines old) (lines new))
  obtain ⟨hold, hnew⟩ := entries_blocks (compact (shortestScript (lines old) (lines new)))
  obtain ⟨p, hshown, hsound⟩ := exists_patch (tidy_blocks hleads.busy)
  rw [hold, hnew, hleads.old, hleads.new] at hsound
  have htext : unified old new = p.text := by
    rw [unified, Patch.text, map_text_of_map_shown hshown]
  refine ⟨p, lines old, lines new, lines_cut old, lines_cut new, hsound, htext, ?_, ?_⟩
  · intro hempty
    have hnone := hsound.hunks_eq_nil (htext ▸ hempty)
    have holdLead := hsound.old
    have hnewLead := hsound.new
    simp only [Patch.entries, hnone, List.flatMap_nil, List.append_nil, old_signed, new_signed,
      reduceCtorEq, if_false] at holdLead hnewLead
    exact lines_injective (holdLead.symm.trans hnewLead)
  · rintro rfl
    exact unified_self old

example : unified "a\nb\n".toList "a\nc".toList = " a\n-b\n+c\n".toList := by decide +kernel

end Repath.Diff

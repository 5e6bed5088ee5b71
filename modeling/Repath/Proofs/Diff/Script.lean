/-
Scripts lead from the old lines to the new ones, wherever the search for a split comes to: what two
lists share at their ends is kept, and any split of what is between them makes up the whole
(`leads_scriptFrom`). Lines are cut so that they make up their text again (`flatten_lines`).
-/
import Repath.Diff.Snake

namespace Repath.Diff

/-! ## Lines -/

/-- A text cut into lines. Each ends with the first `\r\n`, `\n` or lone `\r` in it; what is left
behind the last of these is a line of its own. -/
inductive Cut : Text → List Text → Prop where
  | nil : Cut [] []
  | unended {body : Text} (hsome : body ≠ []) (hcr : '\r' ∉ body) (hlf : '\n' ∉ body) :
      Cut body [body]
  | crlf {body t : Text} {ls : List Text} (hcr : '\r' ∉ body) (hlf : '\n' ∉ body)
      (hcut : Cut t ls) : Cut (body ++ '\r' :: '\n' :: t) ((body ++ ['\r', '\n']) :: ls)
  | lf {body t : Text} {ls : List Text} (hcr : '\r' ∉ body) (hlf : '\n' ∉ body)
      (hcut : Cut t ls) : Cut (body ++ '\n' :: t) ((body ++ ['\n']) :: ls)
  | cr {body t : Text} {ls : List Text} (hcr : '\r' ∉ body) (hlf : '\n' ∉ body)
      (hlone : t.head? ≠ some '\n') (hcut : Cut t ls) :
      Cut (body ++ '\r' :: t) ((body ++ ['\r']) :: ls)

theorem linesFrom_cut (t line : Text) (done : List Text) (hcr : '\r' ∉ line) (hlf : '\n' ∉ line) :
    ∃ ls, linesFrom t line done = done.reverse ++ ls ∧ Cut (line.reverse ++ t) ls := by
  fun_induction linesFrom t line done with
  | case1 done => exact ⟨[], by simp, .nil⟩
  | case2 line done hsome =>
    refine ⟨[line.reverse], by simp, ?_⟩
    rw [List.append_nil]
    exact .unended (by simpa using hsome) (by simpa using hcr) (by simpa using hlf)
  | case3 rest line done ih =>
    obtain ⟨ls, hls, hcut⟩ := ih List.not_mem_nil List.not_mem_nil
    exact ⟨_, by simpa using hls, .crlf (by simpa using hcr) (by simpa using hlf) hcut⟩
  | case4 c rest line done hlone hend ih =>
    obtain ⟨ls, hls, hcut⟩ := ih List.not_mem_nil List.not_mem_nil
    refine ⟨_, by simpa using hls, ?_⟩
    obtain rfl | rfl : c = '\n' ∨ c = '\r' := by simpa using hend
    · exact .lf (by simpa using hcr) (by simpa using hlf) hcut
    · refine .cr (by simpa using hcr) (by simpa using hlf) (fun hhead => ?_) hcut
      obtain ⟨rest, rfl⟩ := List.head?_eq_some_iff.1 hhead
      exact hlone rest rfl rfl
  | case5 c rest line done _ hmore ih =>
    obtain ⟨hclf, hccr⟩ : c ≠ '\n' ∧ c ≠ '\r' := by simpa using hmore
    simpa using ih (by simp [hcr, hccr.symm]) (by simp [hlf, hclf.symm])

theorem lines_cut (t : Text) : Cut t (lines t) := by
  obtain ⟨ls, hls, hcut⟩ := linesFrom_cut t [] [] List.not_mem_nil List.not_mem_nil
  rw [lines, hls]
  exact hcut

theorem Cut.flatten {t : Text} {ls : List Text} (h : Cut t ls) : ls.flatten = t := by
  induction h with
  | nil => rfl
  | unended => simp
  | crlf _ _ _ ih => simp [ih]
  | lf _ _ _ ih => simp [ih]
  | cr _ _ _ _ ih => simp [ih]

/-- The lines of a text make it up. -/
theorem flatten_lines (t : Text) : (lines t).flatten = t :=
  (lines_cut t).flatten

theorem lines_injective : Function.Injective lines :=
  Function.LeftInverse.injective flatten_lines

/-! ## What lists share -/

theorem sharedStart_cons (x y : Text) (a b : List Text) :
    sharedStart (x :: a) (y :: b) = if x = y then sharedStart a b + 1 else 0 := by
  by_cases h : x = y <;> simp [sharedStart, h]

/-- What is counted as shared at the start is the same in both lists. -/
theorem take_sharedStart : ∀ a b : List Text, a.take (sharedStart a b) = b.take (sharedStart a b)
  | [], b => by simp [sharedStart]
  | x :: a, [] => by simp [sharedStart]
  | x :: a, y :: b => by
    rw [sharedStart_cons]
    split
    · rename_i heq
      rw [List.take_succ_cons, List.take_succ_cons, heq, take_sharedStart a b]
    · rfl

theorem drop_sharedEnd (a b : List Text) :
    a.drop (a.length - sharedEnd a b) = b.drop (b.length - sharedEnd a b) := by
  have h := take_sharedStart a.reverse b.reverse
  rw [List.take_reverse, List.take_reverse] at h
  exact List.reverse_inj.1 h

/-! ## The two sides -/

namespace Op

/-- The lines that an operation is on. -/
def lines : Op → List Text
  | keep ls => ls
  | drop ls => ls
  | add ls => ls

end Op

namespace Script

/-- No operation of the script is on no lines. -/
def Busy (script : Script) : Prop :=
  ∀ op ∈ script, op.lines ≠ []

/-- A script that leads from the old lines to the new ones and has no idle operations. -/
structure Leads (script : Script) (old new : List Text) : Prop where
  old : script.old = old
  new : script.new = new
  busy : script.Busy

variable {s t m n : Script} {old new old' new' : List Text}

@[simp] theorem old_nil : Script.old [] = [] := rfl

@[simp] theorem new_nil : Script.new [] = [] := rfl

@[simp] theorem old_cons (op : Op) (s : Script) : Script.old (op :: s) = op.old ++ s.old := by
  simp [Script.old]

@[simp] theorem new_cons (op : Op) (s : Script) : Script.new (op :: s) = op.new ++ s.new := by
  simp [Script.new]

@[simp] theorem old_append (s t : Script) : Script.old (s ++ t) = s.old ++ t.old := by
  simp [Script.old]

@[simp] theorem new_append (s t : Script) : Script.new (s ++ t) = s.new ++ t.new := by
  simp [Script.new]

@[simp] theorem busy_nil : Busy [] := by
  simp [Busy]

@[simp] theorem busy_cons {op : Op} : Busy (op :: s) ↔ op.lines ≠ [] ∧ s.Busy := by
  simp [Busy]

@[simp] theorem busy_append : Busy (s ++ t) ↔ s.Busy ∧ t.Busy := by
  simp [Busy, or_imp, forall_and]

theorem Leads.append (h : s.Leads old new) (h' : t.Leads old' new') :
    Leads (s ++ t) (old ++ old') (new ++ new') where
  old := by rw [old_append, h.old, h'.old]
  new := by rw [new_append, h.new, h'.new]
  busy := busy_append.2 ⟨h.busy, h'.busy⟩

/-- A part of a script may be replaced by one with the same sides. -/
theorem Leads.replace (h : Leads (s ++ (m ++ t)) old new) (hold : n.old = m.old)
    (hnew : n.new = m.new) (hbusy : m.Busy → n.Busy) : Leads (s ++ (n ++ t)) old new where
  old := by
    rw [← h.old]
    simp [hold]
  new := by
    rw [← h.new]
    simp [hnew]
  busy := by
    obtain ⟨hs, hm, ht⟩ : s.Busy ∧ m.Busy ∧ t.Busy := by simpa using h.busy
    simpa using ⟨hs, hbusy hm, ht⟩

end Script

open Script (Leads)

theorem leads_keep (ls : List Text) : Leads (opOn .keep ls) ls ls := by
  unfold opOn
  cases ls <;> constructor <;> simp [Op.old, Op.new, Op.lines]

/-- Everything out and everything in. -/
theorem leads_exchange (old new : List Text) :
    Leads (opOn .drop old ++ opOn .add new) old new := by
  have hdrop : Leads (opOn .drop old) old [] := by
    unfold opOn
    cases old <;> constructor <;> simp [Op.old, Op.new, Op.lines]
  have hadd : Leads (opOn .add new) [] new := by
    unfold opOn
    cases new <;> constructor <;> simp [Op.old, Op.new, Op.lines]
  simpa using hdrop.append hadd

/-- What is shared on both sides of a script may be kept. -/
theorem Script.Leads.surround {script : Script} {start ending old new oldAll newAll : List Text}
    (h : Leads script old new) (hold : start ++ (old ++ ending) = oldAll)
    (hnew : start ++ (new ++ ending) = newAll) :
    Leads (opOn .keep start ++ (script ++ opOn .keep ending)) oldAll newAll :=
  hold ▸ hnew ▸ (leads_keep start).append (h.append (leads_keep ending))

/-- Whatever the splits, the script leads from the one list to the other. -/
theorem leads_scriptFrom : ∀ (depth : Nat) (old new : List Text),
    Leads (scriptFrom depth old new) old new
  | 0, old, new => leads_exchange old new
  | depth + 1, old, new => by
    rw [scriptFrom]
    have hstart := take_sharedStart old new
    have hold := List.take_append_drop (sharedStart old new) old
    have hnew := List.take_append_drop (sharedStart old new) new
    rw [← hstart] at hnew
    generalize old.drop (sharedStart old new) = oldRest at hold ⊢
    generalize new.drop (sharedStart old new) = newRest at hnew ⊢
    have hend := drop_sharedEnd oldRest newRest
    have holdRest := List.take_append_drop (oldRest.length - sharedEnd oldRest newRest) oldRest
    have hnewRest := List.take_append_drop (newRest.length - sharedEnd oldRest newRest) newRest
    rw [← hend] at hnewRest
    generalize oldRest.take (oldRest.length - sharedEnd oldRest newRest) = oldMiddle at holdRest ⊢
    generalize newRest.take (newRest.length - sharedEnd oldRest newRest) = newMiddle at hnewRest ⊢
    -- the lists are now what they share around their middles, so these are left
    refine Script.Leads.surround ?_ (holdRest.symm ▸ hold) (hnewRest.symm ▸ hnew)
    split
    · exact leads_exchange _ _
    · split
      · exact leads_exchange _ _
      · rename_i x y _
        simpa using (leads_scriptFrom depth (oldMiddle.take x) (newMiddle.take y)).append
          (leads_scriptFrom depth (oldMiddle.drop x) (newMiddle.drop y))

theorem sharedStart_self : ∀ ls : List Text, sharedStart ls ls = ls.length
  | [] => rfl
  | l :: ls => by rw [sharedStart_cons, if_pos rfl, sharedStart_self ls, List.length_cons]

/-- Between a list and itself everything is kept. -/
theorem shortestScript_self (ls : List Text) : shortestScript ls ls = opOn .keep ls := by
  simp [shortestScript, scriptFrom, sharedStart_self, opOn]

theorem leads_shortestScript (old new : List Text) : Leads (shortestScript old new) old new :=
  leads_scriptFrom _ old new

end Repath.Diff

/-
Moving changes together keeps both sides of a script. A change that slides over kept lines takes
lines along that are the same on both of its ends, changes of different kinds pass each other on
different sides, and changes of one kind that meet are joined; so each move exchanges a part of the
script for one with the same sides (`Script.Leads.replace`), and all moves together do.
-/
import Repath.Diff.Compaction
import Repath.Proofs.Diff.Script

namespace Repath.Diff

open Script (Leads)

/-- The whole script around a cursor. -/
def Cursor.script (cursor : Cursor) : Script :=
  cursor.before.reverse ++ cursor.here :: cursor.after

section

variable {ls ms old new : List Text} {before after rest : Script}

theorem reverse_cons_append (op : Op) (before after : Script) :
    (op :: before).reverse ++ after = before.reverse ++ op :: after := by
  rw [List.reverse_cons, List.append_assoc, List.singleton_append]

theorem keepIfAny_eq (ls : List Text) (rest : Script) : keepIfAny ls rest = opOn .keep ls ++ rest := by
  unfold keepIfAny opOn
  split <;> rfl

theorem reverse_keepIfAny (ls : List Text) (rest : Script) :
    (keepIfAny ls rest).reverse = rest.reverse ++ opOn .keep ls := by
  unfold keepIfAny opOn
  split <;> simp

/-- Neighbours may change places if no side has lines of both. -/
theorem Script.Leads.swap {a b : Op} (h : Leads (before ++ a :: b :: rest) old new)
    (hold : b.old ++ a.old = a.old ++ b.old) (hnew : b.new ++ a.new = a.new ++ b.new) :
    Leads (before ++ b :: a :: rest) old new :=
  h.replace (m := [a, b]) (n := [b, a]) (by simpa using hold) (by simpa using hnew)
    (by simpa using And.comm.1)

/-- Neighbours may be joined to one operation with the lines of both. -/
theorem Script.Leads.join {a b both : Op} (h : Leads (before ++ a :: b :: rest) old new)
    (hold : both.old = a.old ++ b.old) (hnew : both.new = a.new ++ b.new)
    (hlines : both.lines = a.lines ++ b.lines) : Leads (before ++ both :: rest) old new :=
  h.replace (m := [a, b]) (n := [both]) (by simpa using hold) (by simpa using hnew)
    (by simp +contextual [hlines])

/-- Kept lines in front of a script, as an operation of their own. -/
theorem Script.Leads.keepBefore (h : Leads (before ++ .keep ls :: rest) old new) :
    Leads (before ++ Diff.keepBefore ls rest) old new := by
  unfold Diff.keepBefore
  split
  · rename_i ms rest
    exact h.join rfl rfl rfl
  · exact h

/-- Kept lines behind a script that is last first. -/
theorem Script.Leads.keepAfter (h : Leads (rest.reverse ++ .keep ls :: after) old new) :
    Leads ((Diff.keepAfter ls rest).reverse ++ after) old new := by
  unfold Diff.keepAfter
  split
  · rename_i ms rest
    rw [reverse_cons_append]
    rw [reverse_cons_append] at h
    exact h.join rfl rfl rfl
  · simpa using h

/-- Lines that are at the end of kept lines and of the added lines behind them may be kept there. -/
theorem Script.Leads.slideUp (hshared : 0 < sharedEnd ls ms)
    (h : Leads (before.reverse ++ .keep ls :: .add ms :: after) old new) :
    Leads ((keepIfAny (ls.take (ls.length - sharedEnd ls ms)) before).reverse ++
      .add (ls.drop (ls.length - sharedEnd ls ms) ++ ms.take (ms.length - sharedEnd ls ms)) ::
        Diff.keepBefore (ls.drop (ls.length - sharedEnd ls ms)) after) old new := by
  have hslid : ls.drop (ls.length - sharedEnd ls ms) ≠ [] := by
    have := sharedEnd_le_left ls ms
    rw [Ne, List.drop_eq_nil_iff]
    omega
  have hms := List.take_append_drop (ms.length - sharedEnd ls ms) ms
  rw [← drop_sharedEnd] at hms
  have hls := List.take_append_drop (ls.length - sharedEnd ls ms) ls
  generalize ls.drop (ls.length - sharedEnd ls ms) = slid at *
  generalize ls.take (ls.length - sharedEnd ls ms) = kept at *
  generalize ms.take (ms.length - sharedEnd ls ms) = added at *
  have hkept := leads_keep kept
  -- the shared lines stand behind the addition now, and in front of it as added ones
  have hmoved := h.replace (s := before.reverse) (m := [.keep ls, .add ms])
    (n := opOn .keep kept ++ [.add (slid ++ added), .keep slid])
    (by simp [hkept.old, Op.old, hls]) (by simp [hkept.new, Op.new, ← hls, ← hms])
    (fun _ => by simp [hkept.busy, Op.lines, hslid])
  have hkeep : Leads (before.reverse ++ opOn .keep kept ++ [.add (slid ++ added)] ++
      Diff.keepBefore slid after) old new := Script.Leads.keepBefore (by simpa using hmoved)
  rw [reverse_keepIfAny]
  simpa only [List.append_assoc, List.singleton_append] using hkeep

/-- Lines that are at the start of kept lines and of the added lines in front of them may be kept
there. -/
theorem Script.Leads.slideDown (hshared : 0 < sharedStart ls ms)
    (h : Leads (before.reverse ++ .add ms :: .keep ls :: after) old new) :
    Leads ((Diff.keepAfter (ls.take (sharedStart ls ms)) before).reverse ++
      .add (ms.drop (sharedStart ls ms) ++ ls.take (sharedStart ls ms)) ::
        keepIfAny (ls.drop (sharedStart ls ms)) after) old new := by
  have hslid : ls.take (sharedStart ls ms) ≠ [] := by
    have := sharedStart_le_left ls ms
    rw [Ne, List.take_eq_nil_iff]
    rintro (h | rfl)
    · omega
    · simp at this
      omega
  have hms := List.take_append_drop (sharedStart ls ms) ms
  rw [← take_sharedStart] at hms
  have hls := List.take_append_drop (sharedStart ls ms) ls
  generalize ls.take (sharedStart ls ms) = slid at *
  generalize ls.drop (sharedStart ls ms) = kept at *
  generalize ms.drop (sharedStart ls ms) = added at *
  have hkept := leads_keep kept
  have hmoved := h.replace (s := before.reverse) (m := [.add ms, .keep ls])
    (n := .keep slid :: .add (added ++ slid) :: opOn .keep kept)
    (by simp [hkept.old, Op.old, hls]) (by simp [hkept.new, Op.new, ← hls, ← hms])
    (fun _ => by simp [hkept.busy, Op.lines, hslid])
  rw [keepIfAny_eq]
  exact Script.Leads.keepAfter (by simpa using hmoved)

end

/-! ## Moves -/

theorem leads_moveUp {old new : List Text} (before : Script) (here : Op) (after : Script)
    (h : Leads (before.reverse ++ here :: after) old new) :
    Leads (moveUp before here after).script old new := by
  fun_induction moveUp before here after with
  | case1 here after => exact h
  | case2 ls before ms after shared hshared slid ih =>
    rw [reverse_cons_append] at h
    exact ih (h.slideUp hshared)
  | case3 ls before ms after shared hshared => exact h
  | case4 ls before ms after ih =>
    rw [reverse_cons_append] at h
    exact ih (h.swap (List.append_nil _).symm (List.append_nil _))
  | case5 ls before ms after ih =>
    rw [reverse_cons_append] at h
    exact ih (h.join rfl rfl rfl)
  | case6 ls before ms after ih =>
    rw [reverse_cons_append] at h
    exact ih (h.swap (List.append_nil _) (List.append_nil _).symm)
  | case7 ls before ms after ih =>
    rw [reverse_cons_append] at h
    exact ih (h.join rfl rfl rfl)
  | case8 => exact h

theorem leads_moveDown {old new : List Text} (before : Script) (here : Op) (after : Script)
    (h : Leads (before.reverse ++ here :: after) old new) :
    Leads (moveDown before here after).script old new := by
  fun_induction moveDown before here after with
  | case1 before here => exact h
  | case2 before ms ls after shared hshared slid ih => exact ih (h.slideDown hshared)
  | case3 before ms ls after shared hshared => exact h
  | case4 before ms ls after ih =>
    refine ih ?_
    rw [reverse_cons_append]
    exact h.swap (List.append_nil _) (List.append_nil _).symm
  | case5 before ms ls after ih => exact ih (h.join rfl rfl rfl)
  | case6 before ms ls after ih =>
    refine ih ?_
    rw [reverse_cons_append]
    exact h.swap (List.append_nil _).symm (List.append_nil _)
  | case7 before ms ls after ih => exact ih (h.join rfl rfl rfl)
  | case8 => exact h

/-- However many turns there are, each of them keeps the sides. -/
theorem leads_gather {old new : List Text} (isKind : Op → Bool) (turns : Nat)
    (before after : Script) (h : Leads (before.reverse ++ after) old new) :
    Leads (gather isKind turns before after) old new := by
  fun_induction gather isKind turns before after with
  | case1 before after => exact h
  | case2 turns before => simpa using h
  | case3 turns before op after hkind up down ih =>
    refine ih ?_
    rw [reverse_cons_append]
    exact leads_moveDown _ _ _ (leads_moveUp _ _ _ h)
  | case4 turns before op after hkind ih => exact ih (by simpa using h)

theorem gather_of_forall_not {isKind : Op → Bool} (turns : Nat) (before after : Script)
    (h : ∀ op ∈ after, isKind op = false) :
    gather isKind turns before after = before.reverse ++ after := by
  fun_induction gather isKind turns before after with
  | case1 => rfl
  | case2 => simp
  | case3 turns before op after hkind =>
    exact absurd (h op List.mem_cons_self) (by simp [hkind])
  | case4 turns before op after hkind ih =>
    rw [ih fun other hother => h other (List.mem_cons_of_mem op hother), reverse_cons_append]

/-- Without changes there is nothing to move. -/
theorem compact_keep (ls : List Text) : compact (opOn .keep ls) = opOn .keep ls := by
  have hkept : ∀ op ∈ opOn .keep ls, op = .keep ls := by
    intro op hop
    unfold opOn at hop
    split at hop
    · exact absurd hop List.not_mem_nil
    · exact List.mem_singleton.1 hop
  simp only [compact]
  rw [gather_of_forall_not _ [] (opOn .keep ls) fun op hop => hkept op hop ▸ rfl]
  exact gather_of_forall_not _ [] _ fun op hop => hkept op hop ▸ rfl

theorem leads_compact {script : Script} {old new : List Text} (h : Leads script old new) :
    Leads (compact script) old new :=
  leads_gather _ _ _ _ (leads_gather _ _ _ _ h)

end Repath.Diff

/-
Substitution read off the text from the left: where the source stands the target is written and
reading goes on behind it, elsewhere one scalar is kept. Replacing through the list of cuts is this
substitution (`replace_eq_substitute`). A text in which the source does not occur stays as it is
(`substitute_of_not_infix`), and so does any text if the target is the source (`substitute_self`).
-/
import Repath.Text.Cuts
import Mathlib.Data.List.Infix

namespace Repath.Text

/-- The text with the target in place of every occurrence of the source, leftmost first and
without overlap. -/
def substitute (source target : Text) : Text → Text
  | [] => []
  | c :: rest =>
    if source <+: c :: rest then
      target ++ substitute source target (rest.drop (source.length - 1))
    else c :: substitute source target rest
termination_by t => t.length
decreasing_by all_goals simp +arith

/-! ## Cutting without accumulators -/

theorem cutsFrom_skip (source : Text) :
    ∀ (k : Nat) (t piece : Text) (done : List Text),
      cutsFrom source k t piece done = cutsFrom source 0 (t.drop k) piece done
  | 0, t, _, _ => by rw [List.drop_zero]
  | k + 1, [], _, _ => by simp only [cutsFrom, List.drop_nil]
  | k + 1, _ :: rest, piece, done => by
    rw [cutsFrom, List.drop_succ_cons]
    exact cutsFrom_skip source k rest piece done

/-- The finished pieces stand in front of the others. -/
theorem cutsFrom_done (source : Text) :
    ∀ (k : Nat) (t piece : Text) (done : List Text),
      cutsFrom source k t piece done = done.reverse ++ cutsFrom source k t piece []
  | _, [], piece, done => by simp [cutsFrom]
  | k + 1, _ :: rest, piece, done => by
    rw [cutsFrom, cutsFrom]
    exact cutsFrom_done source k rest piece done
  | 0, c :: rest, piece, done => by
    rw [cutsFrom, cutsFrom]
    split
    · rw [cutsFrom_done source _ rest [] (piece.reverse :: done),
        cutsFrom_done source _ rest [] [piece.reverse]]
      simp
    · exact cutsFrom_done source 0 rest (c :: piece) done

/-- The current piece stands at the start of the first one. -/
theorem cutsFrom_piece (source : Text) :
    ∀ (t piece : Text),
      cutsFrom source 0 t piece [] = (cutsFrom source 0 t [] []).modifyHead (piece.reverse ++ ·)
  | [], piece => by simp [cutsFrom]
  | c :: rest, piece => by
    rw [cutsFrom, cutsFrom]
    split
    · rw [cutsFrom_done source _ rest [] [piece.reverse], cutsFrom_done source _ rest [] [[].reverse]]
      simp
    · rw [cutsFrom_piece source rest (c :: piece), cutsFrom_piece source rest [c],
        List.modifyHead_modifyHead]
      congr 1
      funext p
      simp

theorem cuts_nil (source : Text) : cuts [] source = [[]] := rfl

theorem cuts_cons (source : Text) (c : Char) (rest : Text) :
    cuts (c :: rest) source = if source <+: c :: rest then
      [] :: cuts (rest.drop (source.length - 1)) source
    else (cuts rest source).modifyHead (c :: ·) := by
  unfold cuts
  rw [cutsFrom]
  simp only [List.isPrefixOf_iff_prefix]
  split
  · rw [cutsFrom_skip, cutsFrom_done]
    rfl
  · exact cutsFrom_piece source rest [c]

theorem cuts_ne_nil (t source : Text) : cuts t source ≠ [] := by
  induction t with
  | nil => rw [cuts_nil]; simp
  | cons c rest ih =>
    rw [cuts_cons]
    split
    · simp
    · simpa [List.modifyHead_eq_nil_iff] using ih

/-- Where the source occurs, the first piece is the same whatever follows the text. -/
theorem head?_cuts_append {source : Text} (hne : source ≠ []) :
    ∀ {t : Text}, source <:+: t → ∀ u : Text, (cuts (t ++ u) source).head? = (cuts t source).head?
  | [], h, _ => absurd (List.infix_nil.1 h) hne
  | c :: rest, h, u => by
    rw [List.cons_append, cuts_cons, cuts_cons]
    by_cases hpre : source <+: c :: rest
    · have hlater : source <+: c :: (rest ++ u) := hpre.trans (List.prefix_append (c :: rest) u)
      rw [if_pos hpre, if_pos hlater]
      rfl
    · have hrest : source <:+: rest := (List.infix_cons_iff.1 h).resolve_left hpre
      -- what occurs in the rest is too short to begin here and end in what follows
      have hlater : ¬ source <+: c :: (rest ++ u) := fun hp =>
        hpre (List.prefix_of_prefix_length_le hp (List.prefix_append (c :: rest) u)
          (Nat.le_succ_of_le hrest.length_le))
      rw [if_neg hpre, if_neg hlater, List.head?_modifyHead, List.head?_modifyHead,
        head?_cuts_append hne hrest u]

/-! ## Gluing the pieces -/

theorem intercalate_modifyHead_cons (glue : Text) (c : Char) {pieces : List Text} (h : pieces ≠ []) :
    glue.intercalate (pieces.modifyHead (c :: ·)) = c :: glue.intercalate pieces := by
  match pieces, h with
  | [p], _ => simp
  | p :: q :: ps, _ => simp [List.intercalate_cons_cons]

theorem intercalate_nil_cons (glue : Text) {pieces : List Text} (h : pieces ≠ []) :
    glue.intercalate ([] :: pieces) = glue ++ glue.intercalate pieces := by
  match pieces, h with
  | p :: ps, _ => simp [List.intercalate_cons_cons]

/-- Gluing the pieces with a target is the substitution by that target. -/
theorem replace_eq_substitute (t source target : Text) :
    t.replace source target = substitute source target t := by
  unfold replace
  fun_induction substitute source target t with
  | case1 => rw [cuts_nil]; rfl
  | case2 c rest h ih =>
    rw [cuts_cons, if_pos h, intercalate_nil_cons target (cuts_ne_nil _ _), ih]
  | case3 c rest h ih =>
    rw [cuts_cons, if_neg h, intercalate_modifyHead_cons target c (cuts_ne_nil _ _), ih]

/-! ## The laws of substitution -/

/-- A text without the source stays as it is. -/
theorem substitute_of_not_infix {source t : Text} (target : Text) (h : ¬ source <:+: t) :
    substitute source target t = t := by
  induction t with
  | nil => rw [substitute]
  | cons c rest ih =>
    rw [substitute, if_neg fun hp => h hp.isInfix, ih fun hi => h (hi.trans (List.suffix_cons c rest).isInfix)]

/-- What is read behind an occurrence at the start is what is left of the text. -/
theorem eq_append_drop_of_prefix_cons {source : Text} (hne : source ≠ []) {c : Char}
    {rest : Text} (h : source <+: c :: rest) : c :: rest = source ++ rest.drop (source.length - 1) := by
  obtain ⟨n, hn⟩ := Nat.exists_eq_succ_of_ne_zero (mt List.length_eq_zero_iff.1 hne)
  have hsplit := List.prefix_iff_eq_append.1 h
  rw [hn, List.drop_succ_cons] at hsplit
  rw [hn, Nat.succ_sub_one, hsplit]

/-- A source in its own place changes nothing. -/
theorem substitute_self {source : Text} (hne : source ≠ []) (t : Text) :
    substitute source source t = t := by
  fun_induction substitute source source t with
  | case1 => rfl
  | case2 c rest h ih =>
    rw [ih]
    exact (eq_append_drop_of_prefix_cons hne h).symm
  | case3 c rest h ih => rw [ih]

/-- What a substitution writes comes from the target or was there before. -/
theorem mem_of_mem_substitute {source target t : Text} {c : Char}
    (h : c ∈ substitute source target t) : c ∈ target ∨ c ∈ t := by
  fun_induction substitute source target t with
  | case1 => exact .inr h
  | case2 d rest _ ih =>
    rcases List.mem_append.1 h with h | h
    · exact .inl h
    · exact (ih h).imp_right fun hrest => List.mem_cons_of_mem d (List.mem_of_mem_drop hrest)
  | case3 d rest _ ih =>
    rcases List.mem_cons.1 h with rfl | h
    · exact .inr (List.mem_cons_self ..)
    · exact (ih h).imp_right (List.mem_cons_of_mem d)

/-- The pieces of a text glued with the source are the text again. -/
theorem intercalate_cuts {source : Text} (hne : source ≠ []) (t : Text) :
    source.intercalate (cuts t source) = t := by
  have h := replace_eq_substitute t source source
  rw [substitute_self hne] at h
  exact h

end Repath.Text

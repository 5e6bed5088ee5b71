/-
The cuts of a text are its pieces between the leftmost occurrences of a source, each the first
behind the one before it (`leftmostCuts_cuts`), and there are no other such pieces
(`LeftmostCuts.cuts_eq`). Glued with two texts, the same pieces give two texts, unless there is but
one piece (`eq_of_intercalate_eq`). And pieces without a text in them, glued with that text, are cut
at it into the same pieces again, if the text does not end as it begins
(`leftmostCuts_intercalate`): an occurrence that starts in a piece would have to end in the glue.
-/
import Repath.Proofs.Text.Clash

namespace Repath.Text

/-- Pieces of a text around occurrences of a source, each the leftmost one behind the one before
it; in the last piece there is none. -/
inductive LeftmostCuts (source : Text) : Text → List Text → Prop
  | last {t : Text} : ¬ source <:+: t → LeftmostCuts source t [t]
  | cut {piece rest : Text} {pieces : List Text} :
      (∀ k < piece.length, ¬ source <+: (piece ++ (source ++ rest)).drop k) →
      LeftmostCuts source rest pieces →
      LeftmostCuts source (piece ++ (source ++ rest)) (piece :: pieces)

variable {source : Text}

/-! ## The cuts are the leftmost ones -/

theorem cuts_of_not_infix {t : Text} (h : ¬ source <:+: t) : cuts t source = [t] := by
  induction t with
  | nil => exact cuts_nil source
  | cons c rest ih =>
    have hrest : ¬ source <:+: rest := fun hin => h (hin.trans (List.suffix_cons c rest).isInfix)
    rw [cuts_cons, if_neg fun hpre => h hpre.isInfix, ih hrest, List.modifyHead_cons]

/-- The text before the leftmost occurrence is the first piece, and the text behind it is cut on its
own. -/
theorem cuts_leftmost (hne : source ≠ []) (rest : Text) :
    ∀ piece : Text, (∀ k < piece.length, ¬ source <+: (piece ++ (source ++ rest)).drop k) →
      cuts (piece ++ (source ++ rest)) source = piece :: cuts rest source
  | [], _ => by
    match source, hne with
    | c :: s, _ =>
      rw [List.nil_append, List.cons_append, cuts_cons, if_pos (by simp)]
      simp
  | c :: piece, h => by
    have hhead : ¬ source <+: c :: (piece ++ (source ++ rest)) := h 0 (by simp)
    have htail : ∀ k < piece.length, ¬ source <+: (piece ++ (source ++ rest)).drop k :=
      fun k hk => h (k + 1) (by simpa using hk)
    rw [List.cons_append, cuts_cons, if_neg hhead, cuts_leftmost hne rest piece htail,
      List.modifyHead_cons]

theorem LeftmostCuts.cuts_eq (hne : source ≠ []) {t : Text} {pieces : List Text}
    (h : LeftmostCuts source t pieces) : cuts t source = pieces := by
  induction h with
  | last habsent => exact cuts_of_not_infix habsent
  | cut hleftmost _ ih => rw [cuts_leftmost hne _ _ hleftmost, ih]

/-- A scalar at which no occurrence begins goes to the first piece. -/
theorem LeftmostCuts.cons {c : Char} {rest : Text} {pieces : List Text}
    (hhead : ¬ source <+: c :: rest) (h : LeftmostCuts source rest pieces) :
    LeftmostCuts source (c :: rest) (pieces.modifyHead (c :: ·)) := by
  cases h with
  | last habsent =>
    exact .last fun hin => (List.infix_cons_iff.1 hin).elim hhead habsent
  | @cut piece behind pieces hleftmost hbehind =>
    have hmoved : ∀ k < (c :: piece).length, ¬ source <+: (c :: piece ++ (source ++ behind)).drop k
      | 0, _ => hhead
      | k + 1, hk => hleftmost k (by simpa using hk)
    exact .cut hmoved hbehind

theorem leftmostCuts_cuts (hne : source ≠ []) (t : Text) : LeftmostCuts source t (cuts t source) := by
  induction t using substitute.induct source with
  | case1 =>
    rw [cuts_nil]
    exact .last fun hin => hne (List.infix_nil.1 hin)
  | case2 c rest hpre ih =>
    rw [cuts_cons, if_pos hpre, eq_append_drop_of_prefix_cons hne hpre]
    have hfirst : ∀ k < ([] : Text).length,
        ¬ source <+: ([] ++ (source ++ rest.drop (source.length - 1))).drop k :=
      fun k hk => absurd hk (Nat.not_lt_zero k)
    exact .cut hfirst ih
  | case3 c rest hpre ih =>
    rw [cuts_cons, if_neg hpre]
    exact ih.cons hpre

/-! ## What the pieces tell -/

/-- There is more than one piece exactly if the source occurs. -/
theorem LeftmostCuts.infix_iff {t first : Text} {pieces : List Text}
    (h : LeftmostCuts source t (first :: pieces)) : source <:+: t ↔ pieces ≠ [] := by
  cases h with
  | last habsent => simp [habsent]
  | @cut _ rest _ _ hrest =>
    have hpieces : pieces ≠ [] := by
      rintro rfl
      cases hrest
    exact iff_of_true ⟨first, rest, List.append_assoc ..⟩ hpieces

/-- The first piece is what stands before the first place where the source begins. -/
theorem LeftmostCuts.first_begins {t first second : Text} {pieces : List Text}
    (h : LeftmostCuts source t (first :: second :: pieces)) :
    (∃ behind, t = first ++ (source ++ behind)) ∧ ∀ k < first.length, ¬ source <+: t.drop k := by
  cases h with
  | @cut _ rest _ hleftmost _ => exact ⟨⟨rest, rfl⟩, hleftmost⟩

theorem exists_leftmostCuts (hne : source ≠ []) {t : Text} (h : source <:+: t) :
    ∃ first second rest, LeftmostCuts source t (first :: second :: rest) := by
  have hcuts := leftmostCuts_cuts hne t
  match hpieces : cuts t source with
  | [] => exact absurd hpieces (cuts_ne_nil t source)
  | first :: pieces =>
    rw [hpieces] at hcuts
    obtain ⟨second, rest, rfl⟩ := List.exists_cons_of_ne_nil (hcuts.infix_iff.1 h)
    exact ⟨first, second, rest, hcuts⟩

theorem LeftmostCuts.intercalate (hne : source ≠ []) {t : Text} {pieces : List Text}
    (h : LeftmostCuts source t pieces) : source.intercalate pieces = t := by
  rw [← h.cuts_eq hne, intercalate_cuts hne]

theorem LeftmostCuts.infix_of_mem {t : Text} {pieces : List Text} (h : LeftmostCuts source t pieces) :
    ∀ piece ∈ pieces, piece <:+: t := by
  induction h with
  | last => simp
  | @cut first rest pieces _ _ ih =>
    intro piece hpiece
    rcases List.mem_cons.1 hpiece with rfl | hpiece
    · exact (List.prefix_append ..).isInfix
    · have hrest : rest <:+ first ++ (source ++ rest) :=
        (List.suffix_append source rest).trans (List.suffix_append first _)
      exact (ih piece hpiece).trans hrest.isInfix

/-! ## Glue -/

theorem length_intercalate (glue : Text) : ∀ (first : Text) (pieces : List Text),
    (glue.intercalate (first :: pieces)).length =
      (first :: pieces).flatten.length + pieces.length * glue.length
  | first, [] => by simp
  | first, second :: pieces => by
    have hpieces : (first :: second :: pieces).flatten.length =
        first.length + (second :: pieces).flatten.length := by
      rw [List.flatten_cons, List.length_append]
    rw [List.intercalate_cons_cons, List.length_append, List.length_append,
      length_intercalate glue second pieces, hpieces, List.length_cons, Nat.succ_mul]
    omega

/-- Two or more pieces tell what they are glued with. -/
theorem eq_of_intercalate_eq {glue other first second : Text} {pieces : List Text}
    (h : glue.intercalate (first :: second :: pieces) =
      other.intercalate (first :: second :: pieces)) : glue = other := by
  have hlength := congrArg List.length h
  rw [length_intercalate, length_intercalate] at hlength
  have hsame : glue.length = other.length :=
    Nat.eq_of_mul_eq_mul_left (Nat.succ_pos pieces.length) (Nat.add_left_cancel hlength)
  rw [List.intercalate_cons_cons, List.intercalate_cons_cons, List.append_assoc, List.append_assoc]
    at h
  exact List.append_inj_left (List.append_cancel_left h) hsame

/-- In a piece without the glue no glue begins, also with the glue behind the piece, if the glue
does not end as it begins. -/
theorem not_begins_of_not_overlaps {glue piece : Text} (hborder : ¬ Overlaps glue glue)
    (habsent : ¬ glue <:+: piece) (rest : Text) :
    ∀ k < piece.length, ¬ glue <+: (piece ++ (glue ++ rest)).drop k := by
  intro k hk hpre
  have hinside : piece.drop k <:+: piece := (List.drop_suffix k piece).isInfix
  rw [List.drop_append_of_le_length (Nat.le_of_lt hk)] at hpre
  rcases List.prefix_or_prefix_of_prefix hpre (List.prefix_append (piece.drop k) _) with hin | hout
  · exact habsent (hin.isInfix.trans hinside)
  · -- the end of the piece is the start of the glue, whose other part begins the glue behind
    obtain ⟨part, hsplit⟩ := hout
    have hlength := congrArg List.length hsplit
    rw [List.length_append, List.length_drop] at hlength
    have hstart : part <+: glue := by
      have hboth : piece.drop k ++ part <+: piece.drop k ++ (glue ++ rest) := hsplit.symm ▸ hpre
      exact List.prefix_of_prefix_length_le ((List.prefix_append_right_inj _).1 hboth)
        (List.prefix_append glue rest) (by omega)
    have hproper : part ≠ glue := by
      rintro rfl
      omega
    have hsome : part ≠ [] := by
      rintro rfl
      rw [List.append_nil] at hsplit
      exact habsent (hsplit ▸ hinside)
    exact hborder ⟨part, hsome, ⟨⟨piece.drop k, hsplit⟩, hproper⟩, hstart, hproper⟩

/-- Pieces without the glue, glued, are cut at the glue into the same pieces again. -/
theorem leftmostCuts_intercalate {glue : Text} (hborder : ¬ Overlaps glue glue) :
    ∀ {pieces : List Text}, pieces ≠ [] → (∀ piece ∈ pieces, ¬ glue <:+: piece) →
      LeftmostCuts glue (glue.intercalate pieces) pieces
  | [piece], _, h => by
    rw [List.intercalate_singleton]
    exact .last (h piece (List.mem_singleton_self piece))
  | first :: second :: pieces, _, h => by
    rw [List.intercalate_cons_cons, List.append_assoc]
    have hrest := leftmostCuts_intercalate hborder (List.cons_ne_nil second pieces)
      fun piece hpiece => h piece (List.mem_cons_of_mem first hpiece)
    exact .cut (not_begins_of_not_overlaps hborder (h first (List.mem_cons_self ..)) _) hrest

end Repath.Text

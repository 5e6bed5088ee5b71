/-
Substitution across a separator. An occurrence of a source cannot reach over a scalar that the
source does not hold; so a text is substituted on both sides of such a scalar on its own
(`substitute_append_separator`), and in joined lines every line is, if the source holds no line
feed (`substitute_joinLines`).
-/
import Repath.Proofs.Text.Lines
import Repath.Proofs.Text.Substitution

namespace Repath.Text

variable {source : Text} {c : Char}

/-- A text without the separator that begins at some place ends before the separator. -/
theorem prefix_append_separator_iff (hc : c ∉ source) {t rest : Text} :
    source <+: t ++ c :: rest ↔ source <+: t := by
  refine ⟨fun h => ?_, fun h => h.trans (List.prefix_append t _)⟩
  rcases List.prefix_or_prefix_of_prefix h (List.prefix_append t (c :: rest)) with hpre | hpre
  · exact hpre
  · obtain ⟨part, rfl⟩ := hpre
    rw [List.prefix_append_right_inj] at h
    match part, h with
    | [], _ => rw [List.append_nil]
    | d :: part, h =>
      obtain ⟨rfl, -⟩ := List.cons_prefix_cons.1 h
      exact absurd (List.mem_append_right t (List.mem_cons_self ..)) hc

/-- On both sides of a separator that the source does not hold, a text is substituted on its own. -/
theorem substitute_append_separator (hne : source ≠ []) (hc : c ∉ source) (target t rest : Text) :
    substitute source target (t ++ c :: rest) =
      substitute source target t ++ c :: substitute source target rest := by
  fun_induction substitute source target t with
  | case1 =>
    have hhead : ¬ source <+: c :: rest :=
      fun hp => hne (List.prefix_nil.1 ((prefix_append_separator_iff (t := []) hc).1 hp))
    rw [List.nil_append, substitute, if_neg hhead, List.nil_append]
  | case2 d t h ih =>
    have hpre : source <+: d :: (t ++ c :: rest) := h.trans (List.prefix_append (d :: t) _)
    have hlen : source.length - 1 ≤ t.length := Nat.sub_le_iff_le_add.2 h.length_le
    rw [List.cons_append, substitute, if_pos hpre, List.drop_append_of_le_length hlen, ih,
      List.append_assoc]
  | case3 d t h ih =>
    have hpre : ¬ source <+: d :: (t ++ c :: rest) :=
      fun hp => h ((prefix_append_separator_iff (t := d :: t) hc).1 hp)
    rw [List.cons_append, substitute, if_neg hpre, ih, List.cons_append]

/-- Of joined lines every line is substituted on its own. -/
theorem substitute_joinLines (hne : source ≠ []) (hline : '\n' ∉ source) (target : Text) :
    ∀ ls : List Text, substitute source target (joinLines ls) =
      joinLines (ls.map (substitute source target))
  | [] => by simp [joinLines, substitute]
  | [l] => by simp [joinLines]
  | l :: m :: ls => by
    have hrest : (m :: ls).map (substitute source target) ≠ [] := by simp
    rw [joinLines_cons l (List.cons_ne_nil m ls), substitute_append_separator hne hline,
      substitute_joinLines hne hline target (m :: ls), List.map_cons (l := m :: ls),
      joinLines_cons _ hrest]

end Repath.Text

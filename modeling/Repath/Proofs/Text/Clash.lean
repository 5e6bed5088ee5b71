/-
When a substitution cannot bring a text back. Two texts clash if one of them is in the other, or
ends as the other begins, or if the second is empty. A text that does not clash with the target of
a substitution is in the result only where it was in the text before: no occurrence can touch a
target that was written (`infix_of_infix_around`). So the source itself is gone, and a text that
was not there before does not come up (`not_infix_substitute`).
-/
import Repath.Proofs.Text.Substitution
import Mathlib.Data.List.Infix

namespace Repath.Text

/-- The first text ends in a proper part, not empty, with which the second one begins. -/
def Overlaps (s t : Text) : Prop :=
  ∃ part, part ≠ [] ∧ (part <:+ s ∧ part ≠ s) ∧ part <+: t ∧ part ≠ t

/-- An occurrence of the one text may touch the other: the second text is empty, one is in the
other, or one ends as the other begins. -/
def Clashes (s t : Text) : Prop :=
  t = [] ∨ s <:+: t ∨ t <:+: s ∨ Overlaps s t ∨ Overlaps t s

instance (s t : Text) : Decidable (Overlaps s t) :=
  decidable_of_iff (∃ part ∈ s.tails, part ≠ [] ∧ part ≠ s ∧ part <+: t ∧ part ≠ t) <| by
    constructor
    · rintro ⟨part, hpart, hne, hs, hpre, ht⟩
      exact ⟨part, hne, ⟨(List.mem_tails part s).1 hpart, hs⟩, hpre, ht⟩
    · rintro ⟨part, hne, ⟨hpart, hs⟩, hpre, ht⟩
      exact ⟨part, (List.mem_tails part s).2 hpart, hne, hs, hpre, ht⟩

instance (s t : Text) : Decidable (Clashes s t) :=
  inferInstanceAs (Decidable (t = [] ∨ s <:+: t ∨ t <:+: s ∨ Overlaps s t ∨ Overlaps t s))

variable {s target : Text}

theorem ne_nil_of_not_clashes (h : ¬ Clashes s target) : s ≠ [] := by
  rintro rfl
  exact h (.inr (.inl (List.nil_infix)))

/-- Of a text that does not clash with the target, no part at its start is an end of the target
and no part at its end a start of it, but for the empty part. -/
theorem eq_nil_of_touches (h : ¬ Clashes s target) {front back : Text} (hs : s = front ++ back) :
    (front <:+ target → front = []) ∧ (back <+: target → back = []) := by
  subst hs
  have hinside : ¬ target <:+: front ++ back := fun hin => h (.inr (.inr (.inl hin)))
  have hwhole : ¬ front ++ back <:+: target := fun hin => h (.inr (.inl hin))
  constructor
  · intro hsuf
    by_contra hne
    have hfront : front ≠ target := fun heq => hinside (heq ▸ (List.prefix_append front back).isInfix)
    by_cases hback : back = []
    · rw [hback, List.append_nil] at hwhole
      exact hwhole hsuf.isInfix
    · exact h (.inr (.inr (.inr (.inr ⟨front, hne, ⟨hsuf, hfront⟩, List.prefix_append front back,
        fun heq => hback (List.self_eq_append_right.1 heq)⟩))))
  · intro hpre
    by_contra hne
    have hback : back ≠ target := fun heq => hinside (heq ▸ (List.suffix_append front back).isInfix)
    by_cases hfront : front = []
    · rw [hfront, List.nil_append] at hwhole
      exact hwhole hpre.isInfix
    · exact h (.inr (.inr (.inr (.inl ⟨back, hne, ⟨List.suffix_append front back,
        fun heq => hfront (List.self_eq_append_left.1 heq)⟩, hpre, hback⟩))))

/-- A text that does not clash with the target does not reach into it from either side. -/
theorem infix_of_infix_around (h : ¬ Clashes s target) {before behind : Text}
    (hin : s <:+: before ++ (target ++ behind)) : s <:+: before ∨ s <:+: behind := by
  rcases List.infix_append_iff.1 hin with hin | hin | ⟨front, back, hs, hfront, hback⟩
  · exact .inl hin
  · rcases List.infix_append_iff.1 hin with hin | hin | ⟨front, back, hs, hfront, hback⟩
    · exact absurd (.inr (.inl hin)) h
    · exact .inr hin
    · -- what starts in the target lies behind it
      rw [(eq_nil_of_touches h hs).1 hfront, List.nil_append] at hs
      exact .inr (hs ▸ hback.isInfix)
  · rcases List.prefix_or_prefix_of_prefix hback (List.prefix_append target behind) with hpre | hpre
    · -- what ends in the target lies before it
      rw [(eq_nil_of_touches h hs).2 hpre, List.append_nil] at hs
      exact .inl (hs ▸ hfront.isInfix)
    · refine absurd (.inr (.inr (.inl ?_))) h
      exact hs ▸ hpre.isInfix.trans (List.suffix_append front back).isInfix

/-- A part in which no occurrence begins holds none. -/
theorem not_infix_of_not_begins (hne : s ≠ []) {before t : Text}
    (h : ∀ k < before.length, ¬ s <+: (before ++ t).drop k) : ¬ s <:+: before := by
  rintro ⟨u, v, rfl⟩
  have hpos := List.length_pos_of_ne_nil hne
  refine h u.length ?_ ⟨v ++ t, by simp⟩
  simp only [List.length_append]
  omega

/-- Behind a part that was passed over, in which no occurrence of `s` begins, the substitution
leaves no occurrence of `s`, which is the source or was not there before. -/
theorem not_infix_append_substitute (h : ¬ Clashes s target) (source : Text) (t before : Text)
    (hbegin : ∀ k < before.length, ¬ s <+: (before ++ t).drop k) (hs : s = source ∨ ¬ s <:+: t) :
    ¬ s <:+: before ++ substitute source target t := by
  fun_induction substitute source target t generalizing before with
  | case1 =>
    rw [List.append_nil]
    exact not_infix_of_not_begins (ne_nil_of_not_clashes h) hbegin
  | case2 c rest _ ih =>
    intro hin
    rcases infix_of_infix_around h hin with hin | hin
    · exact not_infix_of_not_begins (ne_nil_of_not_clashes h) hbegin hin
    · have hrest : rest.drop (source.length - 1) <:+: c :: rest :=
        ((List.drop_suffix _ rest).trans (List.suffix_cons c rest)).isInfix
      have habsent := ih [] (by simp) (hs.imp_right fun hno hin => hno (hin.trans hrest))
      exact habsent hin
  | case3 c rest hhead ih =>
    have hkept : ¬ s <+: c :: rest :=
      hs.elim (fun heq => heq ▸ hhead) fun hno hpre => hno hpre.isInfix
    have hrest : s = source ∨ ¬ s <:+: rest :=
      hs.imp_right fun hno hin => hno (hin.trans (List.suffix_cons c rest).isInfix)
    have hlonger := ih (before ++ [c]) (fun k hk => ?_) hrest
    · rwa [List.append_assoc, List.singleton_append] at hlonger
    · rw [List.append_assoc, List.singleton_append]
      rw [List.length_append, List.length_singleton] at hk
      rcases Nat.lt_or_eq_of_le (Nat.le_of_lt_succ hk) with hk | rfl
      · exact hbegin k hk
      · rwa [List.drop_left]

/-- The source of a substitution is gone from the result, and a text that was not there does not
come up, if they do not clash with the target. -/
theorem not_infix_substitute (h : ¬ Clashes s target) {source t : Text}
    (hs : s = source ∨ ¬ s <:+: t) : ¬ s <:+: substitute source target t := by
  have hbehind := not_infix_append_substitute h source t [] (by simp) hs
  rwa [List.nil_append] at hbehind

end Repath.Text

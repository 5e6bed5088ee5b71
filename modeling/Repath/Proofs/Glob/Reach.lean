/-
What a walk over spots reaches. The spots of a text are kept in their order, each with the text
behind it (`Spots.Of`); a step keeps that. Then one step reaches exactly the spots one admitted item
further (`mem_one_iff`), a run those any number of admitted items further (`mem_run_iff`), two lists
together what either reaches (`either_spec`), and the end is reached exactly if it is among the
spots (`reachesEnd_iff`). So steps are put together by the pieces of the text that lie between the
spots (`Reaches`), up to the whole text (`Reaches.reachesEnd_iff`).
-/
import Repath.Glob.Reach
import Mathlib.Data.List.Basic

namespace Repath.Glob

variable {α : Type}

/-- A piece of the text leads from one spot to another. -/
def Spot.Spans (piece : List α) (s x : Spot α) : Prop :=
  s.2 = piece ++ x.2 ∧ x.1 = s.1 + piece.length

/-- Some number of admitted items leads from one spot to another. -/
def Spot.Walks (admits : α → Bool) (s x : Spot α) : Prop :=
  ∃ piece, (∀ a ∈ piece, admits a = true) ∧ s.Spans piece x

namespace Spot

theorem spans_nil (s : Spot α) : s.Spans [] s := ⟨rfl, rfl⟩

theorem Spans.trans {p q : List α} {s x y : Spot α} (h : s.Spans p x) (h' : x.Spans q y) :
    s.Spans (p ++ q) y :=
  ⟨by rw [h.1, h'.1, List.append_assoc], by rw [h'.2, h.2, List.length_append, Nat.add_assoc]⟩

theorem spans_append_iff {p q : List α} {s x : Spot α} :
    s.Spans (p ++ q) x ↔ ∃ y, s.Spans p y ∧ y.Spans q x := by
  constructor
  · rintro ⟨hrest, hcount⟩
    refine ⟨(s.1 + p.length, q ++ x.2), ⟨by rw [hrest, List.append_assoc], rfl⟩, rfl, ?_⟩
    rw [hcount, List.length_append, Nat.add_assoc]
  · rintro ⟨y, h, h'⟩
    exact h.trans h'

/-- Of two spots of a text, the later one lies some piece behind the other. -/
theorem Spans.between {p q : List α} {s x y : Spot α} (h : s.Spans p x) (h' : s.Spans q y)
    (hle : x.1 ≤ y.1) : ∃ piece, x.Spans piece y := by
  obtain ⟨hrest, hcount⟩ := h
  obtain ⟨hrest', hcount'⟩ := h'
  have hpre : p <+: q := by
    refine List.prefix_of_prefix_length_le ⟨x.2, hrest.symm⟩ ⟨y.2, hrest'.symm⟩ ?_
    omega
  obtain ⟨piece, rfl⟩ := hpre
  refine ⟨piece, ?_, ?_⟩
  · rw [hrest, List.append_assoc] at hrest'
    exact List.append_cancel_left hrest'
  · rw [hcount', hcount, List.length_append, Nat.add_assoc]

/-- A walk stays at its spot, or its first item is admitted and it goes on from there. -/
theorem walks_cons_iff {admits : α → Bool} {i : Nat} {item : α} {rest : List α} {x : Spot α} :
    Walks admits (i, item :: rest) x ↔
      x = (i, item :: rest) ∨ admits item = true ∧ Walks admits (i + 1, rest) x := by
  constructor
  · rintro ⟨piece, hadmits, hrest, hcount⟩
    cases piece with
    | nil => exact .inl (Prod.ext hcount hrest.symm)
    | cons a piece =>
      obtain ⟨rfl, hbehind⟩ := List.cons.inj hrest
      refine .inr ⟨hadmits _ (List.mem_cons_self ..), piece,
        fun b hb => hadmits b (List.mem_cons_of_mem _ hb), hbehind, ?_⟩
      rw [hcount, List.length_cons]
      omega
  · rintro (rfl | ⟨hitem, piece, hadmits, hrest, hcount⟩)
    · exact ⟨[], by simp, spans_nil _⟩
    · refine ⟨item :: piece, ?_, congrArg (item :: ·) hrest, ?_⟩
      · rintro a (_ | ⟨_, ha⟩)
        · exact hitem
        · exact hadmits a ha
      · rw [hcount, List.length_cons]
        omega

theorem walks_nil_iff {admits : α → Bool} {i : Nat} {x : Spot α} :
    Walks admits (i, []) x ↔ x = (i, []) := by
  constructor
  · rintro ⟨piece, -, hrest, hcount⟩
    obtain ⟨rfl, hx⟩ := List.append_eq_nil_iff.1 hrest.symm
    exact Prod.ext hcount hx
  · rintro rfl
    exact ⟨[], by simp, spans_nil _⟩

end Spot

namespace Spots

open Spot

/-- Spots of a text, in their order. -/
structure Of (text : List α) (spots : Spots α) : Prop where
  ordered : spots.Pairwise fun s x => s.1 < x.1
  cut : ∀ s ∈ spots, ∃ before, Spans before (0, text) s

variable {text : List α} {spots : Spots α}

theorem of_start (text : List α) : Of text (start text) where
  ordered := List.pairwise_singleton _ _
  cut s hs := by
    rw [List.mem_singleton.1 hs]
    exact ⟨[], spans_nil _⟩

/-! ## One item -/

theorem mem_one_iff {admits : α → Bool} {x : Spot α} :
    x ∈ one admits spots ↔ ∃ s ∈ spots, ∃ a, admits a = true ∧ s.Spans [a] x := by
  unfold one
  rw [List.mem_filterMap]
  refine exists_congr fun s => and_congr_right fun _ => ?_
  obtain ⟨i, rest⟩ := s
  cases rest with
  | nil => simp [Spans]
  | cons item rest =>
    simp only [Spans]
    constructor
    · intro h
      split at h
      · rename_i hitem
        cases h
        exact ⟨item, hitem, rfl, rfl⟩
      · cases h
    · rintro ⟨a, ha, hrest, hcount⟩
      obtain ⟨rfl, hbehind⟩ := List.cons.inj hrest
      rw [if_pos ha]
      exact congrArg some (Prod.ext hcount.symm hbehind)

theorem Of.one (h : Of text spots) (admits : α → Bool) : Of text (one admits spots) where
  ordered := by
    refine h.ordered.filterMap _ fun s x hlt s' hs' x' hx' => ?_
    obtain ⟨i, rest⟩ := s
    obtain ⟨j, behind⟩ := x
    cases rest with
    | nil => cases hs'
    | cons item rest =>
    cases behind with
    | nil => cases hx'
    | cons other behind =>
      simp only [Option.ite_none_right_eq_some, Option.some.injEq] at hs' hx'
      rw [← hs'.2, ← hx'.2]
      exact Nat.succ_lt_succ hlt
  cut x hx := by
    obtain ⟨s, hs, a, -, hspans⟩ := mem_one_iff.1 hx
    obtain ⟨before, hbefore⟩ := h.cut s hs
    exact ⟨_, hbefore.trans hspans⟩

/-! ## A run of items -/

section Walk

variable (admits : α → Bool) (i : Nat) (item : α) (rest : List α)

/-- Where the walk stands on a spot of its own, it goes on if the next item is admitted. -/
theorem runFrom_of_reached {later : Spots α} (h : ∀ s ∈ later.head?, s.1 ≠ i) (done : Spots α) :
    runFrom admits i (item :: rest) true later done =
      runFrom admits (i + 1) rest (admits item) later ((i, item :: rest) :: done) := by
  cases later with
  | nil => rfl
  | cons next others =>
    rw [runFrom]
    simp only [if_neg (h next rfl)]
    rfl

/-- Where it meets the next of the spots, it goes on from there. -/
theorem runFrom_of_next (reached : Bool) {next : Spot α} (h : next.1 = i) (others done : Spots α) :
    runFrom admits i (item :: rest) reached (next :: others) done =
      runFrom admits (i + 1) rest (admits item) others ((i, item :: rest) :: done) := by
  rw [runFrom]
  simp only [if_pos h, Bool.or_true, if_true]

/-- Elsewhere it passes on to the next of the spots. -/
theorem runFrom_of_not_reached {next : Spot α} (h : next.1 ≠ i) (others done : Spots α) :
    runFrom admits i (item :: rest) false (next :: others) done =
      runFrom admits (i + 1) rest false (next :: others) done := by
  rw [runFrom]
  simp only [if_neg h]
  rfl

end Walk

/-- The spots behind the one where the walk stands are behind the next one, or there. -/
theorem spans_behind {i : Nat} {item : α} {rest : List α} {s : Spot α}
    (h : ∃ p, Spans p (i, item :: rest) s) (hne : s.1 ≠ i) : ∃ p, Spans p (i + 1, rest) s := by
  obtain ⟨p, hrest, hcount⟩ := h
  cases p with
  | nil => exact absurd hcount hne
  | cons a p =>
    refine ⟨p, (List.cons.inj hrest).2, ?_⟩
    rw [hcount, List.length_cons]
    omega

/-- The walk reaches what it reached before, the spots it can walk to from where it stands, if that
is reached, and those it can walk to from a later spot. -/
theorem mem_runFrom_iff (admits : α → Bool) {x : Spot α} :
    ∀ (rest : List α) (i : Nat) (reached : Bool) (later done : Spots α),
      later.Pairwise (fun s x => s.1 < x.1) → (∀ s ∈ later, ∃ p, Spans p (i, rest) s) →
      (x ∈ runFrom admits i rest reached later done ↔ x ∈ done ∨
        (reached = true ∧ Walks admits (i, rest) x) ∨ ∃ s ∈ later, Walks admits s x)
  | [], i, reached, later, done, _, hcut => by
    -- every later spot is the end
    have hend : ∀ s ∈ later, s = (i, []) := by
      intro s hs
      obtain ⟨p, hrest, hcount⟩ := hcut s hs
      obtain ⟨rfl, hnil⟩ := List.append_eq_nil_iff.1 hrest.symm
      exact Prod.ext hcount hnil
    have hlater : (∃ s ∈ later, Walks admits s x) ↔ later ≠ [] ∧ x = (i, []) := by
      constructor
      · rintro ⟨s, hs, hwalk⟩
        rw [hend s hs, walks_nil_iff] at hwalk
        exact ⟨List.ne_nil_of_mem hs, hwalk⟩
      · rintro ⟨hne, rfl⟩
        obtain ⟨s, hs⟩ := List.exists_mem_of_ne_nil later hne
        exact ⟨s, hs, by rw [hend s hs, walks_nil_iff]⟩
    rw [runFrom, List.mem_reverse, walks_nil_iff, hlater, ← or_and_right]
    have hcond : (reached || !later.isEmpty) = true ↔ reached = true ∨ later ≠ [] := by simp
    split
    · rename_i h
      rw [List.mem_cons, and_iff_right (hcond.1 h), or_comm]
    · rename_i h
      rw [hcond] at h
      simp [h]
  | item :: rest, i, reached, later, done, hord, hcut => by
    cases hlater : later with
    | nil =>
      cases reached with
      | true =>
        rw [runFrom_of_reached _ _ _ _ (by simp), mem_runFrom_iff admits rest _ _ _ _ .nil (by simp),
          walks_cons_iff, List.mem_cons]
        simp only [List.not_mem_nil, false_and, exists_false, or_false, true_and]
        rw [or_assoc, or_left_comm]
      | false => simp [runFrom]
    | cons next others =>
      rw [hlater] at hord hcut
      obtain ⟨hless, hothers⟩ := List.pairwise_cons.1 hord
      obtain ⟨p, hrest, hcount⟩ := hcut next (List.mem_cons_self ..)
      by_cases hnext : next.1 = i
      · -- the walk stands on the next of the spots, and the others are behind it
        have hp : p = [] := List.length_eq_zero_iff.1 (by simp only at hcount; omega)
        have heq : next = (i, item :: rest) := Prod.ext hnext (by rw [hp] at hrest; exact hrest.symm)
        have hbehind : ∀ s ∈ others, ∃ p, Spans p (i + 1, rest) s := fun s hs =>
          spans_behind (hcut s (List.mem_cons_of_mem _ hs)) (by have := hless s hs; omega)
        -- so it does not matter whether it was reached before
        have hreached : ∀ p q : Prop, reached = true ∧ p ∨ p ∨ q ↔ p ∨ q :=
          fun _ _ => or_iff_right_of_imp fun h => .inl h.2
        rw [runFrom_of_next _ _ _ _ _ hnext, mem_runFrom_iff admits rest _ _ _ _ hothers hbehind,
          List.mem_cons, List.exists_mem_cons_iff, heq, walks_cons_iff, hreached, or_assoc,
          or_assoc, or_left_comm]
      · have hne : ∀ s ∈ next :: others, s.1 ≠ i := by
          rintro s (_ | ⟨_, hs⟩)
          · exact hnext
          · have := hless s hs
            simp only at hcount
            omega
        have hbehind : ∀ s ∈ next :: others, ∃ p, Spans p (i + 1, rest) s :=
          fun s hs => spans_behind (hcut s hs) (hne s hs)
        cases reached with
        | true =>
          rw [runFrom_of_reached _ _ _ _ (by simpa using hnext),
            mem_runFrom_iff admits rest _ _ _ _ hord hbehind, walks_cons_iff, List.mem_cons,
            and_iff_right rfl, or_assoc, or_assoc, or_left_comm]
        | false =>
          rw [runFrom_of_not_reached _ _ _ _ hnext,
            mem_runFrom_iff admits rest _ _ _ _ hord hbehind]
          simp

theorem ordered_reverse_cons {done : Spots α} {i : Nat} (rest : List α)
    (hord : done.reverse.Pairwise fun s x => s.1 < x.1) (hless : ∀ s ∈ done, s.1 < i) :
    ((i, rest) :: done).reverse.Pairwise fun s x => s.1 < x.1 := by
  rw [List.reverse_cons, List.pairwise_append]
  refine ⟨hord, List.pairwise_singleton _ _, fun s hs x hx => ?_⟩
  rw [List.mem_singleton.1 hx]
  exact hless s (List.mem_reverse.1 hs)

/-- The walk lists what it reaches in order. -/
theorem runFrom_ordered (admits : α → Bool) :
    ∀ (rest : List α) (i : Nat) (reached : Bool) (later done : Spots α),
      done.reverse.Pairwise (fun s x => s.1 < x.1) → (∀ s ∈ done, s.1 < i) →
      (runFrom admits i rest reached later done).Pairwise fun s x => s.1 < x.1
  | [], i, reached, later, done, hord, hless => by
    rw [runFrom]
    split
    · exact ordered_reverse_cons [] hord hless
    · exact hord
  | item :: rest, i, reached, later, done, hord, hless => by
    have hmore : ∀ s ∈ (i, item :: rest) :: done, s.1 < i + 1 := by
      rintro s (_ | ⟨_, hs⟩)
      · exact Nat.lt_succ_self i
      · exact Nat.lt_succ_of_lt (hless s hs)
    have hgoes := fun reached later =>
      runFrom_ordered admits rest (i + 1) reached later _
        (ordered_reverse_cons _ hord hless) hmore
    cases later with
    | nil =>
      cases reached with
      | true =>
        rw [runFrom_of_reached _ _ _ _ (by simp)]
        exact hgoes ..
      | false => exact hord
    | cons next others =>
      by_cases hnext : next.1 = i
      · rw [runFrom_of_next _ _ _ _ _ hnext]
        exact hgoes ..
      · cases reached with
        | true =>
          rw [runFrom_of_reached _ _ _ _ (by simpa using hnext)]
          exact hgoes ..
        | false =>
          rw [runFrom_of_not_reached _ _ _ _ hnext]
          exact runFrom_ordered admits rest _ _ _ _ hord fun s hs => Nat.lt_succ_of_lt (hless s hs)

/-- A run reaches the spots that a walk leads to. -/
theorem mem_run_iff (h : Of text spots) {admits : α → Bool} {x : Spot α} :
    x ∈ run admits spots ↔ ∃ s ∈ spots, Walks admits s x := by
  cases spots with
  | nil => simp [run]
  | cons first later =>
    obtain ⟨hless, hlater⟩ := List.pairwise_cons.1 h.ordered
    obtain ⟨before, hbefore⟩ := h.cut first (List.mem_cons_self ..)
    have hbehind : ∀ s ∈ later, ∃ p, Spans p (first.1, first.2) s := by
      intro s hs
      obtain ⟨upto, hupto⟩ := h.cut s (List.mem_cons_of_mem _ hs)
      exact hbefore.between hupto (Nat.le_of_lt (hless s hs))
    rw [run, mem_runFrom_iff admits _ _ _ _ _ hlater hbehind, List.exists_mem_cons_iff]
    simp

theorem Of.run (h : Of text spots) (admits : α → Bool) : Of text (run admits spots) where
  ordered := by
    cases spots with
    | nil => exact .nil
    | cons first later => exact runFrom_ordered admits _ _ _ _ _ .nil (by simp)
  cut x hx := by
    obtain ⟨s, hs, piece, -, hspans⟩ := (mem_run_iff h).1 hx
    obtain ⟨before, hbefore⟩ := h.cut s hs
    exact ⟨_, hbefore.trans hspans⟩

/-! ## Either of two lists -/

/-- Spots of a text are the same if as many items lie before them. -/
theorem eq_of_count {s x : Spot α} (hs : ∃ before, Spans before (0, text) s)
    (hx : ∃ before, Spans before (0, text) x) (hcount : s.1 = x.1) : s = x := by
  obtain ⟨before, hrest, hlength⟩ := hs
  obtain ⟨upto, hrest', hlength'⟩ := hx
  refine Prod.ext hcount (List.append_inj_right (hrest.symm.trans hrest') ?_)
  omega

/-- Of ordered spots only those are left out that are there already. -/
theorem eraseReps_spec : ∀ (later : Spots α) (s : Spot α) (done : Spots α),
    (s :: later).Pairwise (fun s x => s.1 ≤ x.1) →
    (∀ y ∈ s :: later, ∀ x ∈ s :: later, y.1 = x.1 → y = x) →
    done.reverse.Pairwise (fun s x => s.1 < x.1) → (∀ x ∈ done, x.1 < s.1) →
    (List.eraseRepsBy.loop (fun a b => a.1 == b.1) s later done).Pairwise (fun s x => s.1 < x.1) ∧
      ∀ x, x ∈ List.eraseRepsBy.loop (fun a b => a.1 == b.1) s later done ↔
        x ∈ done ∨ x ∈ s :: later
  | [], s, done, _, _, hdone, hless => by
    rw [List.eraseRepsBy.loop]
    exact ⟨ordered_reverse_cons s.2 hdone hless, fun x => by simp [or_comm]⟩
  | next :: later, s, done, hord, heq, hdone, hless => by
    have hrest := (List.pairwise_cons.1 hord).2
    have hsnext := (List.pairwise_cons.1 hord).1 next List.mem_cons_self
    rw [List.eraseRepsBy.loop]
    by_cases hcount : s.1 = next.1
    · -- the next one is the same, so it adds nothing
      obtain rfl : s = next := heq s List.mem_cons_self next (by simp) hcount
      simp only [beq_self_eq_true]
      have hgoes := eraseReps_spec later s done hrest
        (fun y hy x hx => heq y (List.mem_cons_of_mem _ hy) x (List.mem_cons_of_mem _ hx)) hdone hless
      refine ⟨hgoes.1, fun x => (hgoes.2 x).trans ?_⟩
      simp
    · simp only [beq_eq_false_iff_ne.2 hcount]
      have hlt : s.1 < next.1 := by omega
      have hmore : ∀ x ∈ s :: done, x.1 < next.1 := by
        rintro x (_ | ⟨_, hx⟩)
        · exact hlt
        · exact Nat.lt_trans (hless x hx) hlt
      have hgoes := eraseReps_spec later next (s :: done) hrest
        (fun y hy x hx => heq y (List.mem_cons_of_mem _ hy) x (List.mem_cons_of_mem _ hx))
        (ordered_reverse_cons s.2 hdone hless) hmore
      refine ⟨hgoes.1, fun x => (hgoes.2 x).trans ?_⟩
      rw [List.mem_cons, List.mem_cons (l := next :: later), or_assoc, or_left_comm]

/-- The spots of either list are listed in order. -/
theorem either_spec (h : Of text spots) {others : Spots α} (h' : Of text others) :
    Of text (either spots others) ∧ ∀ x, x ∈ either spots others ↔ x ∈ spots ∨ x ∈ others := by
  have hmem (x : Spot α) : x ∈ spots.merge others (fun a b => decide (a.1 ≤ b.1)) ↔
      x ∈ spots ∨ x ∈ others := List.mem_merge
  have hle {l : Spots α} (hl : Of text l) :
      l.Pairwise fun a b => decide (a.1 ≤ b.1) = true :=
    hl.ordered.imp fun hlt => decide_eq_true (Nat.le_of_lt hlt)
  have hord := List.pairwise_merge (fun a b c => by simpa using Nat.le_trans)
    (fun a b => by simpa using Nat.le_total a.1 b.1) spots others (hle h) (hle h')
  unfold either
  cases hmerge : spots.merge others fun a b => decide (a.1 ≤ b.1) with
  | nil =>
    rw [hmerge] at hmem
    exact ⟨⟨.nil, by simp [List.eraseRepsBy]⟩, hmem⟩
  | cons s later =>
    rw [hmerge] at hmem hord
    have hcut : ∀ x ∈ s :: later, ∃ before, Spans before (0, text) x := fun x hx =>
      ((hmem x).1 hx).elim (h.cut x) (h'.cut x)
    obtain ⟨hordered, hspots⟩ := eraseReps_spec later s [] (hord.imp of_decide_eq_true)
      (fun y hy x hx hcount => eq_of_count (hcut y hy) (hcut x hx) hcount) .nil (by simp)
    have hboth (x : Spot α) :=
      ((hspots x).trans (or_iff_right List.not_mem_nil)).trans (hmem x)
    exact ⟨⟨hordered, fun x hx => ((hboth x).1 hx).elim (h.cut x) (h'.cut x)⟩, hboth⟩

/-! ## The end -/

/-- The end is reached if it is among the spots: then it is the last one. -/
theorem reachesEnd_iff (h : Of text spots) : reachesEnd spots = true ↔ ∃ s ∈ spots, s.2 = [] := by
  rcases List.eq_nil_or_concat' spots with rfl | ⟨front, last, rfl⟩
  · simp [reachesEnd]
  · have hlast : reachesEnd (front ++ [last]) = true ↔ last.2 = [] := by
      obtain ⟨i, rest⟩ := last
      cases rest <;> simp [reachesEnd]
    rw [hlast]
    constructor
    · exact fun hend => ⟨last, by simp, hend⟩
    · rintro ⟨s, hs, hend⟩
      rcases List.mem_append.1 hs with hfront | hs
      · -- nothing of the text is behind `s`, so no spot is behind it either
        have hlt := (List.pairwise_append.1 h.ordered).2.2 s hfront last (List.mem_singleton_self _)
        obtain ⟨before, hbefore⟩ := h.cut s hs
        obtain ⟨upto, hupto⟩ := h.cut last (by simp)
        obtain ⟨piece, hpiece⟩ := hbefore.between hupto (Nat.le_of_lt hlt)
        exact (List.append_eq_nil_iff.1 (hend ▸ hpiece.1).symm).2
      · rw [← List.mem_singleton.1 hs]
        exact hend

/-! ## Pieces of the text -/

section

variable {reached further others : Spots α} {pieces behind : List α → Prop}

/-- Those spots of a text are reached that lie a piece further. -/
structure Reaches (text : List α) (spots : Spots α) (pieces : List α → Prop)
    (reached : Spots α) : Prop where
  of : Of text reached
  mem : ∀ x, x ∈ reached ↔ ∃ s ∈ spots, ∃ piece, pieces piece ∧ s.Spans piece x

theorem reaches_self (h : Of text spots) : Reaches text spots (· = []) spots where
  of := h
  mem x := by
    constructor
    · exact fun hx => ⟨x, hx, [], rfl, spans_nil x⟩
    · rintro ⟨s, hs, piece, rfl, hrest, hcount⟩
      rwa [show x = s from Prod.ext hcount hrest.symm]

theorem reaches_one (h : Of text spots) (admits : α → Bool) :
    Reaches text spots (fun piece => ∃ a, admits a = true ∧ piece = [a]) (one admits spots) where
  of := h.one admits
  mem x := by
    rw [mem_one_iff]
    refine exists_congr fun s => and_congr_right fun _ => ?_
    constructor
    · rintro ⟨a, ha, hspans⟩
      exact ⟨[a], ⟨a, ha, rfl⟩, hspans⟩
    · rintro ⟨piece, ⟨a, ha, rfl⟩, hspans⟩
      exact ⟨a, ha, hspans⟩

theorem reaches_run (h : Of text spots) (admits : α → Bool) :
    Reaches text spots (fun piece => ∀ a ∈ piece, admits a = true) (run admits spots) where
  of := h.run admits
  mem _ := mem_run_iff h

theorem Reaches.trans (h : Reaches text spots pieces reached)
    (h' : Reaches text reached behind further) :
    Reaches text spots (fun piece => ∃ p q, piece = p ++ q ∧ pieces p ∧ behind q) further where
  of := h'.of
  mem x := by
    rw [h'.mem]
    constructor
    · rintro ⟨y, hy, q, hq, hbehind⟩
      obtain ⟨s, hs, p, hp, hspans⟩ := (h.mem y).1 hy
      exact ⟨s, hs, p ++ q, ⟨p, q, rfl, hp, hq⟩, hspans.trans hbehind⟩
    · rintro ⟨s, hs, piece, ⟨p, q, rfl, hp, hq⟩, hspans⟩
      obtain ⟨y, hfirst, hbehind⟩ := spans_append_iff.1 hspans
      exact ⟨y, (h.mem y).2 ⟨s, hs, p, hp, hfirst⟩, q, hq, hbehind⟩

theorem Reaches.either (h : Reaches text spots pieces reached)
    (h' : Reaches text spots behind others) :
    Reaches text spots (fun piece => pieces piece ∨ behind piece) (either reached others) where
  of := (either_spec h.of h'.of).1
  mem x := by
    rw [(either_spec h.of h'.of).2, h.mem, h'.mem, ← exists_or]
    refine exists_congr fun s => ?_
    simp only [or_and_right, exists_or, and_or_left]

theorem Reaches.congr (h : Reaches text spots pieces reached)
    (hpieces : ∀ piece, pieces piece ↔ behind piece) : Reaches text spots behind reached where
  of := h.of
  mem x := by simp only [h.mem, hpieces]

/-- From the start the end is reached exactly by the whole text. -/
theorem Reaches.reachesEnd_iff (h : Reaches text (start text) pieces reached) :
    reachesEnd reached = true ↔ pieces text := by
  rw [Spots.reachesEnd_iff h.of]
  constructor
  · rintro ⟨x, hx, hend⟩
    obtain ⟨s, hs, piece, hpiece, hrest, -⟩ := (h.mem x).1 hx
    rw [List.mem_singleton.1 hs, hend, List.append_nil] at hrest
    rwa [show text = piece from hrest]
  · intro htext
    exact ⟨(text.length, []), (h.mem _).2 ⟨(0, text), List.mem_singleton_self _, text, htext,
      (List.append_nil text).symm, (Nat.zero_add _).symm⟩, rfl⟩

end

end Spots

end Repath.Glob

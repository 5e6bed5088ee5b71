/-
A cooldown is determined by its history. After any records and sweeps, at times in any order, the
entries are exactly the paths whose last record no later sweep found past the expiry, each with the
time of that record (`mem_run_iff`): a record replaces what was known of its path, and a sweep looks
only at the times that are known. As long as no operation lies in the future, sweeps are not seen at
all if the window is within the expiry (`isCooling_run_records`).
-/
import Repath.Proofs.Cooldown
import Mathlib.Data.Set.Card

namespace Repath

namespace Cooldown

/-- What a cooldown is asked to do. -/
inductive Operation where
  | record (path : Text) (time : Nat)
  | sweep (time : Nat)
deriving DecidableEq, Repr

namespace Operation

def time : Operation → Nat
  | record _ time => time
  | sweep time => time

def isRecord : Operation → Bool
  | record _ _ => true
  | sweep _ => false

end Operation

def act (cooldown : Cooldown) : Operation → Cooldown
  | .record path time => cooldown.record path time
  | .sweep time => cooldown.sweep time

/-- The cooldown after some operations, first one first. -/
def run (cooldown : Cooldown) (history : List Operation) : Cooldown :=
  history.foldl act cooldown

/-- A cooldown that tracks nothing yet. -/
def fresh (window expiry : Nat) : Cooldown := { window, expiry }

/-- The last record of a path in a history is of that time, and no sweep behind it finds its age
past the expiry. -/
def Remembers (expiry : Nat) (history : List Operation) (key : PathKey) (time : Nat) : Prop :=
  ∃ before path after, history = before ++ .record path time :: after ∧ PathName.key path = key ∧
    (∀ other now, .record other now ∈ after → PathName.key other ≠ key) ∧
    ∀ now, .sweep now ∈ after → now - time ≤ expiry

/-- The paths that are remembered. -/
def remembered (expiry : Nat) (history : List Operation) : Set PathKey :=
  {key | ∃ time, Remembers expiry history key time}

variable {window expiry : Nat} {history : List Operation} {key : PathKey} {time : Nat}

theorem run_concat (cooldown : Cooldown) (history : List Operation) (op : Operation) :
    cooldown.run (history ++ [op]) = (cooldown.run history).act op := by
  rw [run, List.foldl_append]
  rfl

/-! ## One operation more -/

theorem not_remembers_nil : ¬ Remembers expiry [] key time := by
  rintro ⟨before, path, after, hsplit, -⟩
  simp at hsplit

/-- One operation more is the record itself, or it comes behind it. -/
theorem remembers_concat_iff {op : Operation} : Remembers expiry (history ++ [op]) key time ↔
    (∃ path, op = .record path time ∧ PathName.key path = key) ∨
      Remembers expiry history key time ∧
        (∀ other now, op = .record other now → PathName.key other ≠ key) ∧
        ∀ now, op = .sweep now → now - time ≤ expiry := by
  constructor
  · rintro ⟨before, path, after, hsplit, hkey, hlast, hkept⟩
    rcases List.eq_nil_or_concat' after with rfl | ⟨after, last, rfl⟩
    · obtain ⟨-, hop⟩ := List.append_inj' hsplit rfl
      exact .inl ⟨path, List.singleton_inj.1 hop, hkey⟩
    · rw [← List.cons_append, ← List.append_assoc] at hsplit
      obtain ⟨hhistory, hop⟩ := List.append_inj' hsplit rfl
      obtain rfl := List.singleton_inj.1 hop
      simp only [List.mem_append, List.mem_singleton] at hlast hkept
      exact .inr ⟨⟨before, path, after, hhistory, hkey, fun other now h => hlast other now (.inl h),
        fun now h => hkept now (.inl h)⟩, fun other now h => hlast other now (.inr h.symm),
        fun now h => hkept now (.inr h.symm)⟩
  · rintro (⟨path, rfl, hkey⟩ | ⟨⟨before, path, after, rfl, hkey, hlast, hkept⟩, hother, hage⟩)
    · exact ⟨history, path, [], rfl, hkey, by simp, by simp⟩
    · refine ⟨before, path, after ++ [op], by simp, hkey, fun other now h => ?_, fun now h => ?_⟩
      · rcases List.mem_append.1 h with h | h
        · exact hlast other now h
        · exact hother other now (List.mem_singleton.1 h).symm
      · rcases List.mem_append.1 h with h | h
        · exact hkept now h
        · exact hage now (List.mem_singleton.1 h).symm

/-- What is tracked after an operation follows from what was tracked before it. -/
theorem mem_act_iff {cooldown : Cooldown} {op : Operation} :
    (key, time) ∈ (cooldown.act op).entries ↔
      (∃ path, op = .record path time ∧ PathName.key path = key) ∨
        (key, time) ∈ cooldown.entries ∧
          (∀ other now, op = .record other now → PathName.key other ≠ key) ∧
          ∀ now, op = .sweep now → now - time ≤ cooldown.expiry := by
  cases op with
  | record path now =>
    rw [act, mem_record]
    constructor
    · rintro (heq | ⟨hmem, hne⟩)
      · obtain ⟨rfl, rfl⟩ := Prod.mk.inj heq
        exact .inl ⟨path, rfl, rfl⟩
      · refine .inr ⟨hmem, ?_, nofun⟩
        rintro other now ⟨⟩
        exact Ne.symm hne
    · rintro (⟨other, ⟨⟩, rfl⟩ | ⟨hmem, hother, -⟩)
      · exact .inl rfl
      · exact .inr ⟨hmem, (hother path now rfl).symm⟩
  | sweep now =>
    rw [act, mem_sweep]
    simp

/-! ## Runs -/

theorem run_window_expiry (cooldown : Cooldown) (history : List Operation) :
    (cooldown.run history).window = cooldown.window ∧
      (cooldown.run history).expiry = cooldown.expiry := by
  induction history using List.reverseRecOn with
  | nil => exact ⟨rfl, rfl⟩
  | append_singleton history op ih =>
    rw [run_concat]
    cases op <;> exact ih

theorem Distinct.run {cooldown : Cooldown} (h : cooldown.Distinct) (history : List Operation) :
    (cooldown.run history).Distinct := by
  induction history using List.reverseRecOn with
  | nil => exact h
  | append_singleton history op ih =>
    rw [run_concat]
    cases op with
    | record path now => exact ih.record path now
    | sweep now => exact ih.sweep now

theorem distinct_fresh : (fresh window expiry).Distinct := List.nodup_nil

/-- The entries are what is remembered of the history. -/
theorem mem_run_iff (window : Nat) : (key, time) ∈ ((fresh window expiry).run history).entries ↔
    Remembers expiry history key time := by
  induction history using List.reverseRecOn with
  | nil => exact iff_of_false List.not_mem_nil not_remembers_nil
  | append_singleton history op ih =>
    rw [run_concat, mem_act_iff, ih, remembers_concat_iff, (run_window_expiry _ history).2]
    rfl

/-- There is one entry for each path that is remembered. -/
theorem size_run (window expiry : Nat) (history : List Operation) :
    (((fresh window expiry).run history).size : ℕ∞) = (remembered expiry history).encard := by
  have hset : remembered expiry history =
      (((fresh window expiry).run history).entries.map Prod.fst).toFinset := by
    ext key
    simp [remembered, ← mem_run_iff window]
  rw [hset, Set.encard_coe_eq_coe_finsetCard,
    List.toFinset_card_of_nodup (distinct_fresh.run history), List.length_map]
  rfl

theorem remembered_concat_sweep_subset (expiry : Nat) (history : List Operation) (now : Nat) :
    remembered expiry (history ++ [.sweep now]) ⊆ remembered expiry history := by
  rintro key ⟨time, htime⟩
  rcases remembers_concat_iff.1 htime with ⟨path, ⟨⟩, -⟩ | ⟨htime, -⟩
  exact ⟨time, htime⟩

/-- A sweep counts the paths that are forgotten. -/
theorem sweptCount_run (window expiry : Nat) (history : List Operation) (now : Nat) :
    ((((fresh window expiry).run history).sweptCount now : Nat) : ℕ∞) =
      (remembered expiry history \ remembered expiry (history ++ [.sweep now])).encard := by
  have hsize := size_run window expiry history
  have hswept : ((((fresh window expiry).run history).sweep now).size : ℕ∞) =
      (remembered expiry (history ++ [.sweep now])).encard := by
    rw [← size_run window, run_concat]
    rfl
  have hle : (((fresh window expiry).run history).sweep now).size ≤
      ((fresh window expiry).run history).size := List.length_filter_le ..
  have hparts := Set.encard_sdiff_add_encard_of_subset
    (remembered_concat_sweep_subset expiry history now)
  rw [← hsize, ← hswept, ← Nat.sub_add_cancel hle, Nat.cast_add] at hparts
  exact (ENat.add_left_injective_of_ne_top (ENat.natCast_ne_top _) hparts).symm

theorem last?_run (path : Text) (time : Nat) :
    ((fresh window expiry).run history).last? path = some time ↔
      Remembers expiry history (PathName.key path) time := by
  rw [last?_eq_some_iff (distinct_fresh.run history), mem_run_iff]

/-- Where no operation lies behind `now`, what the sweeps forget is past the window. -/
theorem isCooling_run_records {cooldown : Cooldown} (hdistinct : cooldown.Distinct)
    (hexpiry : cooldown.window ≤ cooldown.expiry) (path : Text) {now : Nat} :
    ∀ {history : List Operation}, (∀ op ∈ history, op.time ≤ now) →
      (cooldown.run (history.filter (·.isRecord))).isCooling path now =
        (cooldown.run history).isCooling path now := by
  intro history
  induction history using List.reverseRecOn with
  | nil => exact fun _ => rfl
  | append_singleton history op ih =>
    intro hpast
    have hih := ih fun op hop => hpast op (List.mem_append_left _ hop)
    have hall := hdistinct.run history
    cases op with
    | record recorded time =>
      have hrecords := hdistinct.run (history.filter (·.isRecord))
      have hfilter : (history ++ [Operation.record recorded time]).filter (·.isRecord) =
          history.filter (·.isRecord) ++ [.record recorded time] := List.filter_append ..
      rw [hfilter, run_concat, run_concat, act, act]
      by_cases hkey : PathName.key path = PathName.key recorded
      · rw [Bool.eq_iff_iff, isCooling_record_of_key_eq hrecords hkey,
          isCooling_record_of_key_eq hall hkey, (run_window_expiry _ _).1, (run_window_expiry _ _).1]
      · rw [isCooling_record_of_key_ne hrecords hkey, isCooling_record_of_key_ne hall hkey, hih]
    | sweep time =>
      have htime : time ≤ now := hpast (.sweep time) (by simp)
      have hwithin : (cooldown.run history).window ≤ (cooldown.run history).expiry := by
        rw [(run_window_expiry _ _).1, (run_window_expiry _ _).2]
        exact hexpiry
      have hfilter : (history ++ [Operation.sweep time]).filter (·.isRecord) =
          history.filter (·.isRecord) := (List.filter_append ..).trans (List.append_nil _)
      rw [hfilter, hih, run_concat, act, isCooling_sweep hall hwithin path htime]

/-- The content of a cooldown is determined by its history, whatever the times: a path is tracked
with the time of its last record if every sweep since then found its age within the expiry, and not
tracked otherwise. The size is the number of these paths, and a sweep counts those that it forgets.
A path cools as long as the age of that record is below the window. If the window is within the
expiry, and the operations lie in the order of their times, then from the last of them on all
sweeps can be left out. -/
theorem run_determined (window expiry : Nat) (history : List Operation) :
    let cooldown := (fresh window expiry).run history
    (∀ path time, cooldown.last? path = some time ↔
      Remembers expiry history (PathName.key path) time) ∧
    (cooldown.size : ℕ∞) = (remembered expiry history).encard ∧
    (∀ now, (cooldown.sweptCount now : ℕ∞) =
      (remembered expiry history \ remembered expiry (history ++ [.sweep now])).encard) ∧
    (∀ path now, cooldown.isCooling path now = true ↔
      ∃ time, Remembers expiry history (PathName.key path) time ∧ now - time < window) ∧
    (window ≤ expiry → (history.map Operation.time).Pairwise (· ≤ ·) →
      ∀ path now, (∀ op ∈ history.getLast?, op.time ≤ now) →
        ((fresh window expiry).run (history.filter (·.isRecord))).isCooling path now =
          cooldown.isCooling path now) := by
  intro cooldown
  refine ⟨last?_run, size_run window expiry history, sweptCount_run window expiry history,
    fun path now => ?_, fun hexpiry hordered path now hlast => ?_⟩
  · rw [isCooling_iff (distinct_fresh.run history), (run_window_expiry _ history).1]
    simp only [mem_run_iff]
    rfl
  · refine isCooling_run_records distinct_fresh hexpiry path fun op hop => ?_
    obtain ⟨before, last, rfl⟩ := (List.eq_nil_or_concat' history).resolve_left
      (List.ne_nil_of_mem hop)
    rw [List.getLast?_concat] at hlast
    rcases List.mem_append.1 hop with hbefore | hop
    · rw [List.map_append, List.pairwise_append] at hordered
      exact (hordered.2.2 _ (List.mem_map_of_mem hbefore) last.time (by simp)).trans (hlast last rfl)
    · rw [List.mem_singleton.1 hop]
      exact hlast last rfl

/-- A path is recorded again in another spelling, and the last sweep forgets another path, which is
past its window then. -/
theorem run_determined_swept :
    let history : List Operation := [.record ['a'] 0, .record ['b'] 1, .sweep 5,
      .record ['a', '/'] 6, .sweep 9]
    let cooldown := (fresh 4 7).run history
    let unswept := (fresh 4 7).run (history.filter (·.isRecord))
    (4 ≤ 7 ∧ (history.map Operation.time).Pairwise (· ≤ ·) ∧
      ∀ op ∈ history.getLast?, op.time ≤ 9) ∧
    cooldown.last? ['a'] = some 6 ∧ cooldown.last? ['b'] = none ∧ unswept.last? ['b'] = some 1 ∧
    unswept.isCooling ['a'] 9 = true ∧
    ∀ path, unswept.isCooling path 9 = cooldown.isCooling path 9 := by
  intro history cooldown unswept
  have hordered : (history.map Operation.time).Pairwise (· ≤ ·) := by decide
  have hlast : ∀ op ∈ history.getLast?, op.time ≤ 9 := by decide
  obtain ⟨-, -, -, -, hrecords⟩ := run_determined 4 7 history
  exact ⟨⟨by decide, hordered, hlast⟩, by decide, by decide, by decide, by decide,
    fun path => hrecords (by decide) hordered path 9 hlast⟩

end Cooldown

end Repath

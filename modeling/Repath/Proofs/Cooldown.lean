/-
What a cooldown keeps of the past. As long as no path has two entries, being tracked is being an
entry. A sweep forgets only paths that are no longer cooling, if the window is within the expiry,
so from the time of the sweep on it is not seen (`isCooling_sweep`); a record makes its path cool
anew and leaves every other path as it is.
-/
import Repath.Cooldown
import Mathlib.Data.List.Nodup

namespace Repath

namespace Cooldown

variable {cooldown : Cooldown}

/-- No path has two entries. -/
def Distinct (cooldown : Cooldown) : Prop :=
  (cooldown.entries.map Prod.fst).Nodup

theorem mem_sweep {now : Nat} {entry : PathKey × Nat} :
    entry ∈ (cooldown.sweep now).entries ↔
      entry ∈ cooldown.entries ∧ now - entry.2 ≤ cooldown.expiry := by
  simp [sweep]

theorem mem_record {path : Text} {now : Nat} {entry : PathKey × Nat} :
    entry ∈ (cooldown.record path now).entries ↔
      entry = (PathName.key path, now) ∨
        entry ∈ cooldown.entries ∧ entry.1 ≠ PathName.key path := by
  simp [record]

theorem Distinct.sweep (h : cooldown.Distinct) (now : Nat) : (cooldown.sweep now).Distinct :=
  List.Nodup.sublist (List.filter_sublist.map Prod.fst) h

theorem Distinct.record (h : cooldown.Distinct) (path : Text) (now : Nat) :
    (cooldown.record path now).Distinct := by
  unfold Distinct Cooldown.record
  rw [List.map_cons, List.nodup_cons]
  refine ⟨fun hmem => ?_, List.Nodup.sublist (List.filter_sublist.map Prod.fst) h⟩
  obtain ⟨entry, hentry, hkey⟩ := List.mem_map.1 hmem
  simp [hkey] at hentry

/-! ## Cooling -/

/-- The entry of a path is the time of its last record. -/
theorem last?_eq_some_iff (h : cooldown.Distinct) (path : Text) (last : Nat) :
    cooldown.last? path = some last ↔ (PathName.key path, last) ∈ cooldown.entries := by
  rw [last?, List.lookup_eq_some_iff]
  constructor
  · rintro ⟨before, after, hsplit, -⟩
    rw [hsplit]
    exact List.mem_append_right _ (List.mem_cons_self ..)
  · intro hmem
    obtain ⟨before, after, hsplit⟩ := List.append_of_mem hmem
    refine ⟨before, after, hsplit, fun entry hentry => ?_⟩
    rw [Distinct, hsplit, List.map_append, List.map_cons] at h
    -- the path has no entry before this one
    have hdisjoint := (List.nodup_append.1 h).2.2 entry.1 (List.mem_map_of_mem hentry)
      (PathName.key path) (List.mem_cons_self ..)
    simpa using fun heq => hdisjoint heq.symm

theorem isCooling_iff (h : cooldown.Distinct) (path : Text) (now : Nat) :
    cooldown.isCooling path now = true ↔
      ∃ last, (PathName.key path, last) ∈ cooldown.entries ∧ now - last < cooldown.window := by
  simp only [← last?_eq_some_iff h]
  unfold isCooling
  cases cooldown.last? path <;> simp

/-- A path that a sweep forgets is past its window, now and later. -/
theorem isCooling_sweep (h : cooldown.Distinct) (hexpiry : cooldown.window ≤ cooldown.expiry)
    (path : Text) {now later : Nat} (hlater : now ≤ later) :
    (cooldown.sweep now).isCooling path later = cooldown.isCooling path later := by
  rw [Bool.eq_iff_iff, isCooling_iff (h.sweep now), isCooling_iff h]
  constructor
  · rintro ⟨last, hlast, hage⟩
    exact ⟨last, (mem_sweep.1 hlast).1, hage⟩
  · rintro ⟨last, hlast, hage⟩
    exact ⟨last, mem_sweep.2 ⟨hlast, by show now - last ≤ _; omega⟩, hage⟩

/-- A recorded path cools from the time of the record on. -/
theorem isCooling_record_of_key_eq (h : cooldown.Distinct) {path recorded : Text}
    (hkey : PathName.key path = PathName.key recorded) (now later : Nat) :
    (cooldown.record recorded now).isCooling path later = true ↔ later - now < cooldown.window := by
  rw [isCooling_iff (h.record recorded now), hkey]
  constructor
  · rintro ⟨last, hlast, hage⟩
    rcases mem_record.1 hlast with heq | ⟨-, hne⟩
    · cases heq
      exact hage
    · exact absurd rfl hne
  · exact fun hage => ⟨now, mem_record.2 (.inl rfl), hage⟩

theorem isCooling_record_of_key_ne (h : cooldown.Distinct) {path recorded : Text}
    (hkey : PathName.key path ≠ PathName.key recorded) (now later : Nat) :
    (cooldown.record recorded now).isCooling path later = cooldown.isCooling path later := by
  rw [Bool.eq_iff_iff, isCooling_iff (h.record recorded now), isCooling_iff h]
  constructor
  · rintro ⟨last, hlast, hage⟩
    rcases mem_record.1 hlast with heq | ⟨hmem, -⟩
    · exact absurd (congrArg Prod.fst heq) hkey
    · exact ⟨last, hmem, hage⟩
  · rintro ⟨last, hlast, hage⟩
    exact ⟨last, mem_record.2 (.inr ⟨hlast, hkey⟩), hage⟩

end Cooldown

end Repath

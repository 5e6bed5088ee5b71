/-
The fields of an object as a map. Putting a value at a key is seen at that key and at no other
(`lookup_insertField`), and putting the same value there again changes nothing. The fields that are
left without a key stay, in their order, when a value is put there (`eraseField_sublist_insertField`).
Whatever the order the fields were written in, they are kept in that of their keys
(`ordered_sortFields`), and a value that is put among them finds its place (`ordered_insertField`).
Fields that are put among others are found before them (`lookup_putAll`).
-/
import Repath.Json
import Mathlib.Data.Char
import Mathlib.Data.List.Lex
import Mathlib.Tactic.SplitIfs

namespace Repath.Json

variable (key : Text) (value : Json)

theorem lookup_cons_of_ne {key k : Text} (h : k ≠ key) (value : Json) (rest : Fields) :
    lookup key ((k, value) :: rest) = lookup key rest := by
  rw [lookup, if_neg h]

/-- After a value was put at a key, that key has it and every other key the value it had. -/
theorem lookup_insertField (other : Text) :
    ∀ fields : Fields, lookup other (insertField key value fields) =
      if key = other then some value else lookup other fields
  | [] => rfl
  | (k, v) :: rest => by
    rw [insertField]
    split
    · rename_i hkey
      subst hkey
      by_cases h : key = other <;> simp [lookup, h]
    · rename_i hkey
      split
      · rw [lookup]
      · rw [lookup, lookup, lookup_insertField other rest]
        by_cases hk : k = other
        · rw [if_pos hk, if_pos hk, if_neg fun h => hkey (h.trans hk.symm)]
        · rw [if_neg hk, if_neg hk]

theorem lookup_insertField_self (fields : Fields) :
    lookup key (insertField key value fields) = some value := by
  rw [lookup_insertField, if_pos rfl]

theorem lookup_insertField_of_ne {key other : Text} (h : key ≠ other) (value : Json)
    (fields : Fields) : lookup other (insertField key value fields) = lookup other fields := by
  rw [lookup_insertField, if_neg h]

/-- Putting a value where it is already changes nothing. -/
theorem insertField_insertField :
    ∀ fields : Fields, insertField key value (insertField key value fields) =
      insertField key value fields
  | [] => by simp [insertField]
  | (k, v) :: rest => by
    rw [insertField]
    split
    · rw [insertField, if_pos rfl]
    · rename_i hkey
      split
      · rw [insertField, if_pos rfl]
      · rename_i hlt
        rw [insertField, if_neg hkey, if_neg hlt, insertField_insertField rest]

/-- The fields but those of a key. -/
def eraseField (key : Text) (fields : Fields) : Fields :=
  fields.filter fun field => field.1 != key

theorem eraseField_sublist_insertField :
    ∀ fields : Fields, (eraseField key fields).Sublist (insertField key value fields)
  | [] => List.nil_sublist _
  | (k, v) :: rest => by
    have hrest : (eraseField key rest).Sublist rest := List.filter_sublist
    rw [insertField]
    split_ifs with hkey hlt
    · rw [eraseField, List.filter_cons_of_neg (by simp [hkey])]
      exact hrest.cons _
    · exact List.filter_sublist.cons _
    · rw [eraseField, List.filter_cons_of_pos (by simpa using Ne.symm hkey)]
      exact (eraseField_sublist_insertField rest).cons_cons _

theorem lookup_eq_none_iff {key : Text} :
    ∀ {fields : Fields}, lookup key fields = none ↔ ∀ field ∈ fields, field.1 ≠ key
  | [] => by simp [lookup]
  | (k, v) :: rest => by
    rw [lookup, List.forall_mem_cons, ← lookup_eq_none_iff]
    split_ifs with hkey
    · simp [hkey]
    · simp [hkey]

/-- Puts fields among others. Of equal keys the first of the added ones counts. -/
def putAll (added fields : Fields) : Fields :=
  added.foldr (fun field put => insertField field.1 field.2 put) fields

theorem lookup_putAll (fields : Fields) : ∀ added : Fields,
    lookup key (putAll added fields) = (lookup key added).or (lookup key fields)
  | [] => rfl
  | (k, v) :: added => by
    have hput : putAll ((k, v) :: added) fields = insertField k v (putAll added fields) := rfl
    rw [hput, lookup_insertField, lookup_putAll fields added, lookup]
    split_ifs <;> rfl

/-! ## The order of the fields -/

theorem mem_of_lookup_eq_some {key : Text} {value : Json} :
    ∀ {fields : Fields}, lookup key fields = some value → (key, value) ∈ fields
  | (k, v) :: rest, h => by
    rw [lookup] at h
    split_ifs at h with hkey
    · rw [← hkey, ← Option.some.inj h]
      exact List.mem_cons_self
    · exact List.mem_cons_of_mem _ (mem_of_lookup_eq_some h)

/-- The fields are in the order of their keys, and no key occurs twice. -/
def Ordered (fields : Fields) : Prop :=
  fields.Pairwise fun field other => field.1 < other.1

theorem lt_of_not_lt {key k : Text} (hne : key ≠ k) (h : ¬ key < k) : k < key :=
  (lt_trichotomy key k).elim (absurd · h) (·.resolve_left hne)

theorem mem_insertField {field : Text × Json} :
    ∀ {fields : Fields}, field ∈ insertField key value fields → field = (key, value) ∨ field ∈ fields
  | [], h => .inl (List.mem_singleton.1 h)
  | (k, v) :: rest, h => by
    rw [insertField] at h
    split_ifs at h
    · exact (List.mem_cons.1 h).imp_right (List.mem_cons_of_mem _)
    · exact List.mem_cons.1 h
    · rcases List.mem_cons.1 h with rfl | h
      · exact .inr List.mem_cons_self
      · exact (mem_insertField h).imp_right (List.mem_cons_of_mem _)

theorem ordered_insertField :
    ∀ {fields : Fields}, Ordered fields → Ordered (insertField key value fields)
  | [], _ => List.pairwise_singleton ..
  | (k, v) :: rest, h => by
    obtain ⟨hfirst, hrest⟩ := List.pairwise_cons.1 h
    rw [insertField]
    split_ifs with hkey hlt
    · subst hkey
      exact List.pairwise_cons.2 ⟨hfirst, hrest⟩
    · refine List.pairwise_cons.2 ⟨fun field hfield => ?_, h⟩
      rcases List.mem_cons.1 hfield with rfl | hfield
      · exact hlt
      · exact hlt.trans (hfirst field hfield)
    · refine List.pairwise_cons.2 ⟨fun field hfield => ?_, ordered_insertField hrest⟩
      rcases mem_insertField key value hfield with rfl | hfield
      · exact lt_of_not_lt hkey hlt
      · exact hfirst field hfield

theorem insertNew_cases : ∀ fields : Fields, insertNew key value fields = fields ∨
    insertNew key value fields = insertField key value fields
  | [] => .inr rfl
  | (k, v) :: rest => by
    rw [insertNew, insertField]
    split_ifs
    · exact .inl rfl
    · exact .inr rfl
    · exact (insertNew_cases rest).imp (congrArg _) (congrArg _)

theorem ordered_sortFields : ∀ written : Fields, Ordered (sortFields written)
  | [] => List.Pairwise.nil
  | (k, v) :: written => by
    have hsorted := ordered_sortFields written
    show Ordered (insertNew k v (sortFields written))
    rcases insertNew_cases k v (sortFields written) with h | h
    · rwa [h]
    · rw [h]
      exact ordered_insertField k v hsorted

theorem mem_of_mem_sortFields {field : Text × Json} :
    ∀ {written : Fields}, field ∈ sortFields written → field ∈ written
  | (k, v) :: written, h => by
    have h : field ∈ insertNew k v (sortFields written) := h
    rcases insertNew_cases k v (sortFields written) with hnew | hnew
    · rw [hnew] at h
      exact List.mem_cons_of_mem _ (mem_of_mem_sortFields h)
    · rw [hnew] at h
      rcases mem_insertField k v h with rfl | h
      · exact List.mem_cons_self
      · exact List.mem_cons_of_mem _ (mem_of_mem_sortFields h)

/-- Fields that are written in their order are kept as they are written. -/
theorem sortFields_of_ordered : ∀ {fields : Fields}, Ordered fields → sortFields fields = fields
  | [], _ => rfl
  | (k, v) :: rest, h => by
    obtain ⟨hfirst, hrest⟩ := List.pairwise_cons.1 h
    show insertNew k v (sortFields rest) = (k, v) :: rest
    rw [sortFields_of_ordered hrest]
    cases rest with
    | nil => rfl
    | cons field rest =>
      have hlt : k < field.1 := hfirst field List.mem_cons_self
      rw [insertNew, if_neg hlt.ne, if_pos hlt]

end Repath.Json

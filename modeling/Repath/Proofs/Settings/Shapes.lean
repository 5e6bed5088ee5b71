/-
The three shapes of a settings document say the same. A section is read by the values of its three
keys alone (`ofSection_congr`), and each shape yields them: under the section's name, behind its
dotted keys, or as keys of the document. So a section gives one configuration however it stands in a
document, well formed or not and whatever unrelated entries are around it (`shapes_agree`).
-/
import Repath.Proofs.Settings

namespace Repath

/-- A section is read by its three keys. -/
theorem Config.ofSection_congr {part other : Json}
    (h : ∀ key ∈ Settings.sectionKeys, other.get? key = part.get? key) :
    ofSection other = ofSection part := by
  unfold ofSection switch
  rw [h enabledKey (by decide), h rulesKey (by decide), h showNotificationsKey (by decide)]

namespace Settings

open Json (lookup insertField putAll lookup_putAll lookup_eq_none_iff lookup_insertField_self)

/-! ## Sections in documents -/

/-- A key that is not the section's name and does not start with that name and a point. -/
def Apart (key : Text) : Prop :=
  key ≠ sectionName ∧ ¬ flatStart <+: key

instance (key : Text) : Decidable (Apart key) :=
  inferInstanceAs (Decidable (key ≠ sectionName ∧ ¬ flatStart <+: key))

/-- The entries of a section under dotted keys. -/
def dotted (inner : Json.Fields) : Json.Fields :=
  inner.map fun field => (flatStart ++ field.1, field.2)

theorem lookup_dotted (key : Text) :
    ∀ inner : Json.Fields, lookup (flatStart ++ key) (dotted inner) = lookup key inner
  | [] => rfl
  | (k, v) :: inner => by
    have hrest := lookup_dotted key inner
    unfold dotted at hrest ⊢
    rw [List.map_cons, lookup, lookup, hrest]
    simp only [List.append_cancel_left_eq]

theorem lookup_dotted_of_not_prefix {key : Text} (h : ¬ flatStart <+: key) (inner : Json.Fields) :
    lookup key (dotted inner) = none := by
  refine lookup_eq_none_iff.2 fun field hfield hkey => h ?_
  obtain ⟨own, -, rfl⟩ := List.mem_map.1 hfield
  exact hkey ▸ List.prefix_append flatStart own.1

theorem not_prefix_of_mem_sectionKeys : ∀ key ∈ sectionKeys, ¬ flatStart <+: key := by
  decide

section Read

variable {inner others fields : Json.Fields}

/-! ## Reading each shape -/

/-- A document whose section stands under its name is read by that section alone. -/
theorem config?_nested (h : lookup sectionName fields = some (.object inner)) :
    config? (.object fields) = .ok (Config.ofSection (.object inner)) := by
  have hread : config? (.object fields) = .ok (Config.ofSection (sectionOf fields)) := rfl
  rw [hread, sectionOf_nested h]

/-- Dotted keys among entries that are no keys of a section make a flat document. -/
theorem shapeOf_dotted (hothers : ∀ field ∈ others, Apart field.1 ∧ field.1 ∉ sectionKeys) :
    shapeOf (putAll (dotted inner) others) = .flat := by
  -- neither the section's name nor one of its keys is there
  have hnone : ∀ key, ¬ flatStart <+: key → (∀ field ∈ others, field.1 ≠ key) →
      lookup key (putAll (dotted inner) others) = none := by
    intro key hstart hkey
    rw [lookup_putAll, lookup_dotted_of_not_prefix hstart, lookup_eq_none_iff.2 hkey]
    rfl
  refine shapeOf_eq_flat_iff.2 ⟨fun hnested => ?_, fun key hkey => ?_⟩
  · obtain ⟨found, hfound⟩ := shapeOf_eq_nested_iff.1 hnested
    rw [hnone sectionName (by decide) fun field hfield => (hothers field hfield).1.1] at hfound
    cases hfound
  · refine hnone key (not_prefix_of_mem_sectionKeys key hkey) fun field hfield heq => ?_
    exact (hothers field hfield).2 (heq ▸ hkey)

/-- Behind its dotted keys a section has the values that it has alone. -/
theorem config?_dotted (hothers : ∀ field ∈ others, Apart field.1 ∧ field.1 ∉ sectionKeys) :
    config? (.object (putAll (dotted inner) others)) = .ok (Config.ofSection (.object inner)) := by
  have hread : config? (.object (putAll (dotted inner) others)) =
      .ok (Config.ofSection (sectionOf (putAll (dotted inner) others))) := rfl
  rw [hread, sectionOf_flat (shapeOf_dotted hothers)]
  refine congrArg Except.ok (Config.ofSection_congr fun key _ => ?_)
  have hapart : lookup (flatStart ++ key) others = none :=
    lookup_eq_none_iff.2 fun field hfield heq =>
      (hothers field hfield).1.2 (heq ▸ List.prefix_append flatStart key)
  show lookup key (flatFields (putAll (dotted inner) others)) = lookup key inner
  rw [lookup_flatFields, lookup_putAll, lookup_dotted, hapart, Option.or_none]

/-- A document without a nested section and without dotted keys is read as the section itself. -/
theorem config?_bare (h : ∀ field ∈ fields, Apart field.1) :
    config? (.object fields) = .ok (Config.ofSection (.object fields)) := by
  have hread : config? (.object fields) = .ok (Config.ofSection (sectionOf fields)) := rfl
  rw [hread]
  cases hshape : shapeOf fields with
  | nested =>
    obtain ⟨found, hfound⟩ := shapeOf_eq_nested_iff.1 hshape
    have hnone : lookup sectionName fields = none := lookup_eq_none_iff.2 fun field hfield =>
      (h field hfield).1
    rw [hnone] at hfound
    cases hfound
  | bare => rw [sectionOf_bare hshape]
  | flat =>
    -- no key of a section is there, and so none is in the section that the dotted keys make up
    rw [sectionOf_flat hshape]
    refine congrArg Except.ok (Config.ofSection_congr fun key hkey => ?_)
    have hdotted : lookup (flatStart ++ key) fields = none :=
      lookup_eq_none_iff.2 fun field hfield heq =>
        (h field hfield).2 (heq ▸ List.prefix_append flatStart key)
    show lookup key (flatFields fields) = lookup key fields
    rw [lookup_flatFields, hdotted, (shapeOf_eq_flat_iff.1 hshape).2 key hkey]

end Read

/-! ## The shapes agree -/

/-- A section, of any entries whose keys do not address a section themselves, gives the same
configuration under its name among unrelated entries, behind its dotted keys among unrelated
entries, and as the document itself; and further entries beside the nested section change nothing.
A document that is no object has no configuration. -/
theorem shapes_agree (inner others : Json.Fields) (hinner : ∀ field ∈ inner, Apart field.1)
    (hothers : ∀ field ∈ others, Apart field.1 ∧ field.1 ∉ sectionKeys) :
    let config := Config.ofSection (.object inner)
    let nested := insertField sectionName (.object inner) others
    config? (.object nested) = .ok config ∧
    config? (.object (putAll (dotted inner) others)) = .ok config ∧
    config? (.object inner) = .ok config ∧
    (∀ added : Json.Fields, (∀ field ∈ added, field.1 ≠ sectionName) →
      config? (.object (putAll added nested)) = .ok config) ∧
    ∀ document : Json, document.isObject = false → config? document = .error .notObject := by
  intro config nested
  have hname : lookup sectionName nested = some (.object inner) :=
    lookup_insertField_self sectionName (.object inner) others
  refine ⟨config?_nested hname, config?_dotted hothers, config?_bare hinner, fun added hadded => ?_,
    fun document hother => ?_⟩
  · refine config?_nested ?_
    rw [lookup_putAll, lookup_eq_none_iff.2 hadded, hname]
    rfl
  · cases document with
    | object fields => cases hother
    | _ => rfl

/-- A mistyped switch, rules that are no array and a switch that is off, with stray keys of the
other two shapes beside the nested section. -/
theorem shapes_agree_mistyped :
    let inner : Json.Fields := [(Config.enabledKey, .string "no".toList),
      (Config.rulesKey, .object []), (Config.showNotificationsKey, .bool false)]
    let others : Json.Fields := [("editor.tabSize".toList, .nat 4)]
    let stray : Json.Fields := [(Config.enabledKey, .bool false),
      (flatStart ++ Config.enabledKey, .bool false)]
    let nested := insertField sectionName (.object inner) others
    (∀ field ∈ inner, Apart field.1) ∧
      (∀ field ∈ others, Apart field.1 ∧ field.1 ∉ sectionKeys) ∧
      (∀ field ∈ stray, field.1 ≠ sectionName) ∧
      config? (.object (putAll stray nested)) = .ok ⟨true, [], false⟩ ∧
      config? (.object (putAll (dotted inner) others)) = .ok ⟨true, [], false⟩ ∧
      config? (.object inner) = .ok ⟨true, [], false⟩ ∧
      config? (.array []) = .error .notObject := by
  intro inner others stray nested
  have hinner : ∀ field ∈ inner, Apart field.1 := by decide
  have hothers : ∀ field ∈ others, Apart field.1 ∧ field.1 ∉ sectionKeys := by decide
  have hstray : ∀ field ∈ stray, field.1 ≠ sectionName := by decide
  obtain ⟨-, hflat, hbare, hbeside, hrefused⟩ := shapes_agree inner others hinner hothers
  exact ⟨hinner, hothers, hstray, hbeside stray hstray, hflat, hbare, hrefused (.array []) rfl⟩

end Settings

end Repath

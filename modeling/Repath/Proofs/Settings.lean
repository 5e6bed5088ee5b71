/-
Rules written into a settings document. The shape of a document decides where its rules stand, and
writing adds a key that has a part in that decision; still a document keeps its shape
(`shapeOf_writeFields`), and its section reads as before but for the rules (`get?_sectionOf_writeFields`).
So rules that were kept for saving are the rules that are read afterwards, whatever was in the
document (`write_prepared`).
-/
import Repath.Config
import Repath.Proofs.Json
import Repath.Proofs.Rule

namespace Repath.Settings

open Json (lookup insertField lookup_insertField lookup_insertField_self lookup_insertField_of_ne)

/-! ## The three shapes -/

section Shapes

variable {fields : Json.Fields}

theorem shapeOf_eq_nested_iff :
    shapeOf fields = .nested ↔ ∃ inner, lookup sectionName fields = some (.object inner) := by
  unfold shapeOf
  constructor
  · intro h
    split at h
    · rename_i hobject
      cases hfound : lookup sectionName fields with
      | none => rw [hfound] at hobject; cases hobject
      | some found =>
        rw [hfound] at hobject
        cases found with
        | object inner => exact ⟨inner, rfl⟩
        | _ => cases hobject
    · split at h <;> cases h
  · rintro ⟨inner, h⟩
    rw [h]
    rfl

theorem shapeOf_eq_bare_iff :
    shapeOf fields = .bare ↔ shapeOf fields ≠ .nested ∧
      ∃ key ∈ sectionKeys, (lookup key fields).isSome = true := by
  unfold shapeOf
  split
  · simp
  · split
    · rename_i hany
      simpa using hany
    · rename_i hany
      simpa using hany

theorem shapeOf_eq_flat_iff :
    shapeOf fields = .flat ↔ shapeOf fields ≠ .nested ∧
      ∀ key ∈ sectionKeys, lookup key fields = none := by
  unfold shapeOf
  split
  · simp
  · split
    · rename_i hany
      obtain ⟨key, hkey, hsome⟩ := List.any_eq_true.1 hany
      simp only [reduceCtorEq, false_iff, not_and, not_forall]
      exact fun _ => ⟨key, hkey, fun hnone => by rw [hnone] at hsome; cases hsome⟩
    · rename_i hany
      simpa using hany

/-- The shape hangs on the section's name and on which of the section's keys are there. -/
theorem shapeOf_congr {other : Json.Fields}
    (hname : lookup sectionName other = lookup sectionName fields)
    (hkeys : ∀ key ∈ sectionKeys, lookup key other = lookup key fields) :
    shapeOf other = shapeOf fields := by
  have hany : (sectionKeys.any fun key => (lookup key other).isSome) =
      sectionKeys.any fun key => (lookup key fields).isSome := by
    rw [Bool.eq_iff_iff, List.any_eq_true, List.any_eq_true]
    exact exists_congr fun key => and_congr_right fun hkey => by rw [hkeys key hkey]
  rw [shapeOf, hname, hany, shapeOf]

end Shapes

/-! ## What writing does in each shape -/

section Write

variable {fields : Json.Fields} (rules : List Rule)

theorem writeFields_nested {inner : Json.Fields}
    (h : lookup sectionName fields = some (.object inner)) :
    writeFields rules fields = insertField sectionName
      (.object (insertField Config.rulesKey (Rule.listToJson rules) inner)) fields := by
  unfold writeFields
  simp only [shapeOf_eq_nested_iff.2 ⟨inner, h⟩, h]

theorem writeFields_flat (h : shapeOf fields = .flat) :
    writeFields rules fields =
      insertField (flatStart ++ Config.rulesKey) (Rule.listToJson rules) fields := by
  unfold writeFields
  simp only [h]

theorem writeFields_bare (h : shapeOf fields = .bare) :
    writeFields rules fields = insertField Config.rulesKey (Rule.listToJson rules) fields := by
  unfold writeFields
  simp only [h]

/-- Written rules stand where the shape that chose their place is found again. -/
theorem shapeOf_writeFields (fields : Json.Fields) :
    shapeOf (writeFields rules fields) = shapeOf fields := by
  cases h : shapeOf fields with
  | nested =>
    obtain ⟨inner, hinner⟩ := shapeOf_eq_nested_iff.1 h
    rw [writeFields_nested rules hinner]
    exact shapeOf_eq_nested_iff.2 ⟨_, lookup_insertField_self ..⟩
  | flat =>
    rw [writeFields_flat rules h, ← h]
    refine shapeOf_congr (lookup_insertField_of_ne (by decide) ..) fun key hkey => ?_
    have hne : ∀ key ∈ sectionKeys, flatStart ++ Config.rulesKey ≠ key := by decide
    exact lookup_insertField_of_ne (hne key hkey) ..
  | bare =>
    rw [writeFields_bare rules h, shapeOf_eq_bare_iff]
    refine ⟨fun hnested => (shapeOf_eq_bare_iff.1 h).1 ?_, Config.rulesKey, by decide, ?_⟩
    · -- the section's name is as it was
      rwa [shapeOf_eq_nested_iff, lookup_insertField_of_ne (by decide),
        ← shapeOf_eq_nested_iff] at hnested
    · rw [lookup_insertField_self]
      rfl

/-- Writing the same rules again changes nothing. -/
theorem writeFields_writeFields (fields : Json.Fields) :
    writeFields rules (writeFields rules fields) = writeFields rules fields := by
  have hshape := shapeOf_writeFields rules fields
  cases h : shapeOf fields with
  | nested =>
    obtain ⟨inner, hinner⟩ := shapeOf_eq_nested_iff.1 h
    rw [writeFields_nested rules hinner,
      writeFields_nested rules (lookup_insertField_self sectionName _ fields),
      Json.insertField_insertField, Json.insertField_insertField]
  | flat =>
    rw [writeFields_flat rules (hshape.trans h), writeFields_flat rules h,
      Json.insertField_insertField]
  | bare =>
    rw [writeFields_bare rules (hshape.trans h), writeFields_bare rules h,
      Json.insertField_insertField]

end Write

/-! ## The section after writing -/

section Section

variable {fields : Json.Fields}

theorem sectionOf_nested {inner : Json.Fields}
    (h : lookup sectionName fields = some (.object inner)) : sectionOf fields = .object inner := by
  unfold sectionOf
  simp only [shapeOf_eq_nested_iff.2 ⟨inner, h⟩, h]
  rfl

theorem sectionOf_flat (h : shapeOf fields = .flat) :
    sectionOf fields = .object (flatFields fields) := by
  unfold sectionOf
  simp only [h]

theorem sectionOf_bare (h : shapeOf fields = .bare) : sectionOf fields = .object fields := by
  unfold sectionOf
  simp only [h]

/-- A key of the flat section has the value of the dotted key. -/
theorem lookup_flatFields (key : Text) :
    ∀ fields : Json.Fields, lookup key (flatFields fields) = lookup (flatStart ++ key) fields
  | [] => rfl
  | (k, v) :: rest => by
    have hrest := lookup_flatFields key rest
    unfold flatFields at hrest ⊢
    rw [List.filterMap_cons]
    by_cases hpre : flatStart.isPrefixOf k
    · obtain ⟨field, rfl⟩ := List.isPrefixOf_iff_prefix.1 hpre
      simp only [if_pos hpre, List.drop_left]
      rw [lookup, lookup, hrest]
      simp only [List.append_cancel_left_eq]
    · have hne : k ≠ flatStart ++ key :=
        fun heq => hpre (List.isPrefixOf_iff_prefix.2 (heq ▸ List.prefix_append ..))
      simp only [if_neg hpre]
      rw [hrest, Json.lookup_cons_of_ne hne]

/-- After writing, the section has the written rules, and its other keys read as before. -/
theorem get?_sectionOf_writeFields (rules : List Rule) (fields : Json.Fields) (key : Text) :
    (sectionOf (writeFields rules fields)).get? key =
      if Config.rulesKey = key then some (Rule.listToJson rules)
      else (sectionOf fields).get? key := by
  have hshape := shapeOf_writeFields rules fields
  cases h : shapeOf fields with
  | nested =>
    obtain ⟨inner, hinner⟩ := shapeOf_eq_nested_iff.1 h
    rw [writeFields_nested rules hinner, sectionOf_nested (lookup_insertField_self ..),
      sectionOf_nested hinner]
    exact lookup_insertField ..
  | flat =>
    rw [h] at hshape
    rw [sectionOf_flat hshape, sectionOf_flat h, writeFields_flat rules h]
    show lookup key (flatFields _) = if _ then _ else lookup key (flatFields fields)
    rw [lookup_flatFields, lookup_flatFields, lookup_insertField]
    simp only [List.append_cancel_left_eq]
  | bare =>
    rw [h] at hshape
    rw [sectionOf_bare hshape, sectionOf_bare h, writeFields_bare rules h]
    exact lookup_insertField ..

/-- Clean rules that are written are the rules of the configuration, and its switches stay. -/
theorem ofSection_writeFields {rules : List Rule} (h : ∀ rule ∈ rules, rule.Clean)
    (fields : Json.Fields) :
    Config.ofSection (sectionOf (writeFields rules fields)) =
      { Config.ofSection (sectionOf fields) with rules } := by
  have hrules := get?_sectionOf_writeFields rules fields Config.rulesKey
  have henabled := get?_sectionOf_writeFields rules fields Config.enabledKey
  have hnotify := get?_sectionOf_writeFields rules fields Config.showNotificationsKey
  rw [if_pos rfl] at hrules
  rw [if_neg (by decide)] at henabled hnotify
  unfold Config.ofSection Config.switch
  rw [hrules, henabled, hnotify]
  simp only [Option.map_some, Option.getD_some, Rule.listOfJson_listToJson h]

end Section

/-! ## Saving -/

/-- Writing in place: the document afterwards, which is the old one if it cannot be written, and
the outcome. -/
def write (rules : List Rule) (document : Json) : Json × Except SettingsError Unit :=
  match writeRules rules document with
  | .ok written => (written, .ok ())
  | .error error => (document, .error error)

/-- Two values are objects that agree on every key but the given one. -/
def AgreeBut (key : Text) (old new : Json) : Prop :=
  old.isObject = true ∧ new.isObject = true ∧ ∀ other, other ≠ key → new.get? other = old.get? other

/-- Two documents agree but for the entry that holds the rules in the shape of the old one: a key
of the section, a dotted key, or a key of the document. -/
def AgreeButRules (old new : Json) : Prop :=
  match shape? old with
  | .ok .nested => AgreeBut sectionName old new ∧
      ∃ oldSection newSection, old.get? sectionName = some oldSection ∧
        new.get? sectionName = some newSection ∧ AgreeBut Config.rulesKey oldSection newSection
  | .ok .flat => AgreeBut (flatStart ++ Config.rulesKey) old new
  | .ok .bare => AgreeBut Config.rulesKey old new
  | .error _ => False

theorem agreeBut_insertField (key : Text) (value : Json) (fields : Json.Fields) :
    AgreeBut key (.object fields) (.object (insertField key value fields)) :=
  ⟨rfl, rfl, fun _ hne => lookup_insertField_of_ne (Ne.symm hne) value fields⟩

theorem agreeButRules_writeFields (rules : List Rule) (fields : Json.Fields) :
    AgreeButRules (.object fields) (.object (writeFields rules fields)) := by
  have hshape : shape? (.object fields) = .ok (shapeOf fields) := rfl
  unfold AgreeButRules
  rw [hshape]
  cases h : shapeOf fields with
  | nested =>
    obtain ⟨inner, hinner⟩ := shapeOf_eq_nested_iff.1 h
    rw [writeFields_nested rules hinner]
    exact ⟨agreeBut_insertField .., _, _, hinner, lookup_insertField_self ..,
      agreeBut_insertField ..⟩
  | flat =>
    rw [writeFields_flat rules h]
    exact agreeBut_insertField ..
  | bare =>
    rw [writeFields_bare rules h]
    exact agreeBut_insertField ..

/-- Rules that were kept for saving, written into any document. An object takes them: it keeps its
shape and every entry but that of the rules, its configuration has exactly these rules and the
switches it had, and writing them again changes nothing. Anything else is refused and stays as it
is. -/
theorem write_prepared (raw document : Json) :
    let kept := (prepare raw).kept
    let after := (write kept document).1
    (document.isObject = true →
      (write kept document).2 = .ok () ∧ shape? after = shape? document ∧
      (∃ before, config? document = .ok before ∧ config? after = .ok { before with rules := kept }) ∧
      AgreeButRules document after ∧ write kept after = (after, .ok ())) ∧
    (document.isObject = false → write kept document = (document, .error .notObject)) := by
  intro kept after
  have hclean : ∀ rule ∈ kept, rule.Clean := fun rule hrule => Rule.clean_of_mem_listOfJson hrule
  refine ⟨fun hobject => ?_, fun hother => ?_⟩
  · cases document with
    | object fields =>
      refine ⟨rfl, congrArg Except.ok (shapeOf_writeFields kept fields),
        ⟨Config.ofSection (sectionOf fields), rfl, ?_⟩, agreeButRules_writeFields kept fields, ?_⟩
      · exact congrArg Except.ok (ofSection_writeFields hclean fields)
      · show (Json.object (writeFields kept (writeFields kept fields)), _) = _
        rw [writeFields_writeFields]
        rfl
    | _ => cases hobject
  · cases document with
    | object fields => cases hother
    | _ => rfl

/-- The rules of a document with dotted keys and a section that is no object, among entries that
are no rules. -/
theorem write_prepared_flat :
    let entry := Json.object [(Rule.enabledKey, .nat 1), (Rule.sourceKey, .string "a ".toList),
      (Rule.nameKey, .string " r".toList), (Rule.targetKey, .string [])]
    let raw := Json.array [.null, entry]
    let document := Json.object [(sectionName, .nat 0), (flatStart ++ Config.enabledKey, .bool false),
      (flatStart ++ Config.rulesKey, .string [])]
    document.isObject = true ∧ (write (prepare raw).kept document).2 = .ok () ∧
      config? (write (prepare raw).kept document).1 =
        .ok ⟨false, [⟨['r'], ['a'], [], [], true⟩], true⟩ := by
  intro entry raw document
  obtain ⟨hok, -, ⟨before, hbefore, hafter⟩, -⟩ := (write_prepared raw document).1 rfl
  have hkept : (prepare raw).kept = [⟨['r'], ['a'], [], [], true⟩] := by decide
  have hread : config? document = .ok ⟨false, [], true⟩ := by decide
  obtain rfl := Except.ok.inj (hread.symm.trans hbefore)
  exact ⟨rfl, hok, hkept ▸ hafter⟩

end Repath.Settings

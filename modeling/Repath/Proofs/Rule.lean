/-
Rules that come from settings read back as they are. Reading trims names and sources and takes no
blank ones (`clean_of_ofJson`); a rule that is clean in this way is written to an entry from which
the same rule is read (`ofJson_toJson`), for trimming a trimmed text does nothing. In a list of
entries each is read on its own (`listOfJson_eq_flatMap`).
-/
import Repath.Rule
import Repath.Proofs.Text.Trim

namespace Repath

/-! ## Reading and writing one rule -/

namespace Rule

/-- A text as the trimmed fields of an entry hold it: without blanks at its ends, and not empty. -/
structure CleanText (t : Text) : Prop where
  trimmed : t.trim = t
  nonempty : t ≠ []

/-- Name and source of a rule are clean. -/
structure Clean (rule : Rule) : Prop where
  name : CleanText rule.name
  source : CleanText rule.source

theorem CleanText.not_isBlank {t : Text} (h : CleanText t) : t.isBlank = false := by
  rw [← Bool.not_eq_true]
  exact fun hblank => h.nonempty (h.trimmed.symm.trans (Text.trim_of_isBlank hblank))

theorem cleanText_of_trimmedField {key : Text} {entry : Json} {t : Text}
    (h : trimmedField key entry = some t) : CleanText t := by
  unfold trimmedField at h
  split at h
  · cases h
  · split at h
    · cases h
    · rename_i hne
      cases h
      exact ⟨Text.trim_trim _, fun hnil => hne (List.isEmpty_iff.2 hnil)⟩

/-- A field that holds a clean text reads as that text. -/
theorem trimmedField_of_clean {key t : Text} {entry : Json} (hget : entry.get? key = some (.string t))
    (h : CleanText t) : trimmedField key entry = some t := by
  unfold trimmedField
  rw [hget]
  show (if t.trim.isEmpty then none else some t.trim) = some t
  rw [h.trimmed, if_neg fun hnil => h.nonempty (List.isEmpty_iff.1 hnil)]

theorem clean_of_ofJson {entry : Json} {rule : Rule} (h : ofJson entry = .ok rule) : rule.Clean := by
  unfold ofJson at h
  split at h
  · cases h
  split at h
  · cases h
  rename_i name hname
  split at h
  · cases h
  rename_i source hsource
  split at h
  · cases h
  cases h
  exact ⟨cleanText_of_trimmedField hname, cleanText_of_trimmedField hsource⟩

/-- The texts of an array of texts are all read. -/
theorem textsField_of_texts {key : Text} {entry : Json} {texts : List Text}
    (h : entry.get? key = some (.array (texts.map .string))) : textsField key entry = texts := by
  unfold textsField
  rw [h]
  show (texts.map Json.string).filterMap Json.text? = texts
  rw [List.filterMap_map]
  exact List.filterMap_some

/-- From what is written of a clean rule the same rule is read. -/
theorem ofJson_toJson {rule : Rule} (h : rule.Clean) : ofJson rule.toJson = .ok rule := by
  have hname : trimmedField nameKey rule.toJson = some rule.name :=
    trimmedField_of_clean rfl h.name
  have hsource : trimmedField sourceKey rule.toJson = some rule.source :=
    trimmedField_of_clean rfl h.source
  have hpaths : textsField exemptPathsKey rule.toJson = rule.exemptPaths :=
    textsField_of_texts rfl
  have htarget : (rule.toJson.get? targetKey).bind Json.text? = some rule.target := rfl
  have henabled : ((rule.toJson.get? enabledKey).map Json.truthy).getD false = rule.enabled := rfl
  unfold ofJson
  simp only [hname, hsource, htarget, hpaths, henabled]
  rfl

/-! ## Lists of rules -/

/-- Each entry gives its rule or none, whatever the other entries are. -/
theorem listOfJson_eq_flatMap (raw : Json) :
    listOfJson raw = (raw.items?.getD []).flatMap fun entry => (ofJson entry).toOption.toList :=
  List.filterMap_eq_flatMap_toList ..

theorem listOfJson_append (items others : List Json) :
    listOfJson (.array (items ++ others)) = listOfJson (.array items) ++ listOfJson (.array others) :=
  List.filterMap_append

theorem length_listOfJson_le (raw : Json) : (listOfJson raw).length ≤ (raw.items?.getD []).length :=
  List.length_filterMap_le ..

theorem clean_of_mem_listOfJson {raw : Json} {rule : Rule} (h : rule ∈ listOfJson raw) :
    rule.Clean := by
  obtain ⟨entry, -, hread⟩ := List.mem_filterMap.1 h
  cases hentry : ofJson entry with
  | error reason => rw [hentry] at hread; cases hread
  | ok read =>
    rw [hentry] at hread
    cases hread
    exact clean_of_ofJson hentry

/-- Clean rules are read back as the list they were written from. -/
theorem listOfJson_listToJson {rules : List Rule} (h : ∀ rule ∈ rules, rule.Clean) :
    listOfJson (listToJson rules) = rules := by
  show (rules.map toJson).filterMap (fun entry => (ofJson entry).toOption) = rules
  rw [List.filterMap_map]
  refine (List.filterMap_congr fun rule hrule => ?_).trans List.filterMap_some
  rw [Function.comp_apply, ofJson_toJson (h rule hrule)]
  rfl

end Rule

end Repath

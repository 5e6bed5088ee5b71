/-
What becomes of a settings file when rules are saved. A save that fails leaves its bytes. A save
that goes through spells every key and every string value of the document that was read
(`document?_eq_ok_iff`), those of its rules apart (`texts_sublist_writeFields`); but the document is
read leniently, so these are the texts of the file only if its bytes were those of a text
(`saveRules_faithful_iff`): in any other file, what was malformed is written back as replacement
characters.
-/
import Repath.Files.SettingsFile
import Repath.Proofs.Files.Disk
import Repath.Proofs.Json.Quoted
import Repath.Proofs.Settings

namespace Repath

/-! ## Documents without their rules -/

namespace Settings

open Json (lookup insertField eraseField)

/-- A document without the entry that holds the rules in its shape. -/
def withoutRules : Json → Json
  | .object fields =>
    match shapeOf fields, lookup sectionName fields with
    | .nested, some (.object inner) =>
      .object (insertField sectionName (.object (eraseField Config.rulesKey inner)) fields)
    | .flat, _ => .object (eraseField (flatStart ++ Config.rulesKey) fields)
    | .bare, _ => .object (eraseField Config.rulesKey fields)
    | .nested, _ => .object fields
  | other => other

/-- Writing rules keeps the texts of all other entries. -/
theorem texts_sublist_writeFields (rules : List Rule) (fields : Json.Fields) :
    (withoutRules (.object fields)).texts.Sublist
      (Json.object (writeFields rules fields)).texts := by
  cases h : shapeOf fields with
  | nested =>
    obtain ⟨inner, hinner⟩ := shapeOf_eq_nested_iff.1 h
    have herased := Json.texts_sublist_of_sublist
      (Json.eraseField_sublist_insertField Config.rulesKey (Rule.listToJson rules) inner)
    -- the same key is put into the document, with a section that lacks the rules or has new ones
    simp only [withoutRules, h, hinner, writeFields_nested rules hinner]
    exact Json.texts_insertField_sublist herased sectionName fields
  | flat =>
    simp only [withoutRules, h, writeFields_flat rules h]
    exact Json.texts_sublist_of_sublist (Json.eraseField_sublist_insertField ..)
  | bare =>
    simp only [withoutRules, h, writeFields_bare rules h]
    exact Json.texts_sublist_of_sublist (Json.eraseField_sublist_insertField ..)

end Settings

namespace SettingsFile

variable {disk : Disk} {path : Text} {bytes : Bytes}

/-! ## What a save reads -/

/-- The document that a text of the settings file writes. -/
def parse? (text : Text) : Option Json :=
  if text.isBlank then some (.object []) else Json.read? text

/-- What the settings file is read as: the empty document where nothing is, else the document of a
file that is neither too large nor binary, read leniently. -/
def Reads (disk : Disk) (path : Text) (document : Json) : Prop :=
  disk.entry? path = none ∧ document = .object [] ∨
    ∃ bytes, disk.entry? path = some (.file bytes) ∧ bytes.length ≤ Disk.maxTextBytes ∧
      isBinary bytes = false ∧ parse? (Utf8.decodeLossy bytes) = some document

theorem document?_eq_ok_iff {document : Json} :
    document? disk path = .ok document ↔ Reads disk path document := by
  unfold document? Reads
  constructor
  · intro h
    split at h
    · rename_i missing hread
      exact .inl ⟨(Disk.readText_eq_notFound_iff.1 hread).1, (Except.ok.inj h).symm⟩
    · cases h
    · rename_i text hread
      obtain ⟨bytes, hfile, hsize, hbinary, rfl⟩ := Disk.readText_eq_ok_iff.1 hread
      refine .inr ⟨bytes, hfile, hsize, hbinary, ?_⟩
      unfold parse?
      split at h
      · rw [if_pos ‹_›, ← Except.ok.inj h]
      · rw [if_neg ‹_›]
        split at h
        · cases h
        · obtain rfl := Except.ok.inj h
          assumption
  · rintro (⟨hnone, rfl⟩ | ⟨bytes, hfile, hsize, hbinary, hparse⟩)
    · rw [Disk.readText_eq_notFound_iff.2 ⟨hnone, rfl⟩]
    · simp only [Disk.readText_eq_ok_iff.2 ⟨bytes, hfile, hsize, hbinary, rfl⟩]
      unfold parse? at hparse
      split at hparse
      · rw [if_pos ‹_›, ← Option.some.inj hparse]
      · rw [if_neg ‹_›, hparse]

theorem parse?_of_document? (hfile : disk.entry? path = some (.file bytes)) {document : Json}
    (h : document? disk path = .ok document) : parse? (Utf8.decodeLossy bytes) = some document := by
  rcases document?_eq_ok_iff.1 h with ⟨hnone, -⟩ | ⟨found, hfound, -, -, hparse⟩
  · cases hfile.symm.trans hnone
  · obtain rfl := Entry.file.inj (Option.some.inj (hfile.symm.trans hfound))
    exact hparse

/-- A settings file that cannot be used: a folder, or a file that is too large, binary, or not the
text of an object. -/
def Unusable (disk : Disk) (path : Text) : Prop :=
  disk.entry? path = some .folder ∨
    ∃ bytes, disk.entry? path = some (.file bytes) ∧
      (Disk.maxTextBytes < bytes.length ∨ isBinary bytes = true ∨
        ∀ fields, parse? (Utf8.decodeLossy bytes) ≠ some (.object fields))

theorem unusable_iff : Unusable disk path ↔ ∀ fields, ¬ Reads disk path (.object fields) := by
  unfold Unusable Reads
  cases hentry : disk.entry? path with
  | none => simp
  | some entry =>
    cases entry with
    | folder => simp
    | file bytes =>
      simp only [reduceCtorEq, false_or, false_and, Option.some.injEq, Entry.file.injEq,
        exists_eq_left']
      constructor
      · rintro (hlarge | hbinary | hnone) fields ⟨hsize, htext, hparse⟩
        · exact absurd hsize (Nat.not_le.2 hlarge)
        · exact Bool.false_ne_true (htext.symm.trans hbinary)
        · exact hnone fields hparse
      · intro h
        by_cases hsize : bytes.length ≤ Disk.maxTextBytes
        · cases htext : isBinary bytes with
          | true => exact .inr (.inl rfl)
          | false => exact .inr (.inr fun fields hparse => h fields ⟨hsize, htext, hparse⟩)
        · exact .inl (Nat.not_le.1 hsize)

theorem load_eq_ok_iff {config : Config} : load disk path = .ok config ↔
    ∃ fields, Reads disk path (.object fields) ∧ Settings.config? (.object fields) = .ok config := by
  unfold load section?
  constructor
  · intro h
    cases hdocument : document? disk path with
    | error failure => rw [hdocument] at h; cases h
    | ok document =>
      rw [hdocument] at h
      cases document with
      | object fields =>
        have hconfig := Except.ok.inj h
        exact ⟨fields, document?_eq_ok_iff.1 hdocument, congrArg Except.ok hconfig⟩
      | _ => cases h
  · rintro ⟨fields, hreads, hconfig⟩
    rw [document?_eq_ok_iff.2 hreads]
    exact congrArg Except.ok (Except.ok.inj hconfig)

theorem exists_load_eq_error_iff : (∃ failure, load disk path = .error failure) ↔
    Unusable disk path := by
  rw [unusable_iff]
  constructor
  · rintro ⟨failure, hfailure⟩ fields hreads
    rw [load_eq_ok_iff.2 ⟨fields, hreads, rfl⟩] at hfailure
    cases hfailure
  · intro h
    cases hload : load disk path with
    | error failure => exact ⟨failure, rfl⟩
    | ok config =>
      obtain ⟨fields, hreads, -⟩ := load_eq_ok_iff.1 hload
      exact absurd hreads (h fields)

theorem textWithRules_eq_ok_iff {rules : List Rule} {text : Text} :
    textWithRules disk path rules = .ok text ↔ ∃ fields, Reads disk path (.object fields) ∧
      (Json.object (Settings.writeFields rules fields)).pretty ++ ['\n'] = text := by
  unfold textWithRules
  constructor
  · intro h
    cases hdocument : document? disk path with
    | error failure => rw [hdocument] at h; cases h
    | ok document =>
      rw [hdocument] at h
      cases document with
      | object fields => exact ⟨fields, document?_eq_ok_iff.1 hdocument, Except.ok.inj h⟩
      | _ => cases h
  · rintro ⟨fields, hreads, rfl⟩
    rw [document?_eq_ok_iff.2 hreads]
    rfl

/-! ## The ways of a save -/

theorem keeps_makeFolder (disk : Disk) (path : Text) : disk.Keeps (makeFolder disk path).1 := by
  unfold makeFolder
  split
  · exact .refl disk
  · exact Disk.keeps_makeFolders disk _

/-- A save fails and leaves what was there, but for folders that it made, or it replaces the file
by the text with the rules in it. -/
theorem saveRules_cases (disk : Disk) (path : Text) (raw : Json) :
    (∃ after failure, saveRules disk path raw = (after, .error failure) ∧ disk.Keeps after) ∨
      ∃ (ready after : Disk) (text : Text),
        saveRules disk path raw = (after, .ok (Settings.prepare raw)) ∧
        textWithRules disk path (Settings.prepare raw).kept = .ok text ∧
        ready.replaceText path text = .ok after := by
  have hkeeps := keeps_makeFolder disk path
  unfold saveRules
  dsimp only
  cases htext : textWithRules disk path (Settings.prepare raw).kept with
  | error failure => exact .inl ⟨disk, failure, rfl, .refl disk⟩
  | ok text =>
    dsimp only
    split
    · rename_i made failure hmade
      rw [hmade] at hkeeps
      exact .inl ⟨made, failure, rfl, hkeeps⟩
    · rename_i ready hready
      rw [hready] at hkeeps
      cases hreplace : ready.replaceText path text with
      | error e => exact .inl ⟨ready, _, rfl, hkeeps⟩
      | ok after => exact .inr ⟨ready, after, text, rfl, rfl, hreplace⟩

/-! ## What a save writes back -/

/-- A saved text spells all keys and string values of a document, those of its rules apart. -/
def Carries (document : Json) (saved : Text) : Prop :=
  ∃ spelled, Json.Quotes saved spelled ∧
    (Settings.withoutRules document).texts.Sublist spelled

/-- A saved text is faithful to a file: the bytes of the file are those of a text, and the saved
one carries the document that this text writes. -/
def Faithful (bytes : Bytes) (saved : Text) : Prop :=
  ∃ old document, Utf8.encode old = bytes ∧ parse? old = some document ∧ Carries document saved

theorem carries_pretty (rules : List Rule) (fields : Json.Fields) :
    Carries (.object fields)
      ((Json.object (Settings.writeFields rules fields)).pretty ++ ['\n']) := by
  have hend : Json.Spells ['\n'] [] := Json.spells_of_notMem (by decide)
  have hspells := (Json.spells_pretty (.object (Settings.writeFields rules fields))).append hend
  rw [List.append_nil] at hspells
  exact ⟨_, hspells.quotes, Settings.texts_sublist_writeFields rules fields⟩

/-- Rules saved to a file that is there. A save that fails leaves its bytes. One that goes through
leaves a text that carries the document which the lenient reading of the bytes writes, and is
faithful to the file exactly if the bytes were those of a text. -/
theorem saveRules_faithful_iff (hfile : disk.entry? path = some (.file bytes)) (raw : Json) :
    let saved := saveRules disk path raw
    (∀ failure, saved.2 = .error failure → Disk.entry? saved.1 path = some (.file bytes)) ∧
      ∀ update, saved.2 = .ok update → ∃ text document,
        saved.1.Holds path text ∧ parse? (Utf8.decodeLossy bytes) = some document ∧
          Carries document text ∧ (Faithful bytes text ↔ ∃ old, Utf8.encode old = bytes) := by
  intro saved
  obtain ⟨after, failure, hsaved, hkeeps⟩ | ⟨ready, after, text, hsaved, htext, hreplace⟩ :=
    saveRules_cases disk path raw
  · have hsaved : saved = (after, .error failure) := hsaved
    rw [hsaved]
    exact ⟨fun _ _ => hkeeps.entry? hfile, nofun⟩
  · have hsaved : saved = (after, .ok (Settings.prepare raw)) := hsaved
    rw [hsaved]
    refine ⟨nofun, fun update _ => ?_⟩
    obtain ⟨fields, hreads, rfl⟩ := textWithRules_eq_ok_iff.1 htext
    have hdocument := document?_eq_ok_iff.2 hreads
    obtain ⟨place, -, hplace, hleft, -⟩ := Disk.replaceFile_spec hreplace
    have hparse := parse?_of_document? hfile hdocument
    have hcarries := carries_pretty (Settings.prepare raw).kept fields
    refine ⟨_, .object fields, Disk.entry?_eq_some_iff.2 ⟨place, hplace, hleft⟩, hparse, hcarries,
      ⟨fun ⟨old, _, hold, _⟩ => ⟨old, hold⟩, ?_⟩⟩
    -- even a lenient reading gives a text back from its own bytes
    rintro ⟨old, rfl⟩
    rw [Utf8.decodeLossy_encode] at hparse
    exact ⟨old, .object fields, rfl, hparse, hcarries⟩

/-- A key and a value with characters that are written as escapes, beside rules that go. -/
theorem saveRules_faithful_escaped :
    let old : Text := "\x7b\"rules\":[\"x\"],\"k\\n\":[\"\\u00e9\\u0001\"]\x7d".toList
    let disk : Disk := { files := [([['s']], Utf8.encode old)] }
    let saved := saveRules disk ['s'] (.array [])
    let text : Text :=
      "\x7b\n  \"k\\n\": [\n    \"é\\u0001\"\n  ],\n  \"rules\": []\n\x7d\n".toList
    disk.entry? ['s'] = some (.file (Utf8.encode old)) ∧ saved.2 = .ok ⟨[], 0⟩ ∧
      saved.1.Holds ['s'] text ∧ Faithful (Utf8.encode old) text := by
  intro old disk saved text
  have hfile : disk.entry? ['s'] = some (.file (Utf8.encode old)) := by decide +kernel
  have hok : saved.2 = .ok ⟨[], 0⟩ := by decide +kernel
  have hran : saved.1.Holds ['s'] text := by
    show Disk.entry? saved.1 ['s'] = some (.file (Utf8.encode text))
    decide +kernel
  obtain ⟨found, -, hfound, -, -, hiff⟩ := (saveRules_faithful_iff hfile (.array [])).2 _ hok
  obtain rfl := Disk.Holds.unique hran hfound
  exact ⟨hfile, hok, hran, hiff.2 ⟨old, rfl⟩⟩

/-- A value with a byte that belongs to no character: a strict reading refuses the file, and a save
goes through and puts the replacement character there. -/
theorem saveRules_unfaithful :
    let bytes : Bytes := [0x7B, 0x22, 0x61, 0x22, 0x3A, 0x22, 0xFF, 0x22, 0x7D]
    let disk : Disk := { files := [([['s']], bytes)] }
    let saved := saveRules disk ['s'] (.array [])
    let text : Text :=
      "\x7b\n  \"a\": \"\uFFFD\",\n  \"replace-go-import.rules\": []\n\x7d\n".toList
    disk.entry? ['s'] = some (.file bytes) ∧ (¬ ∃ old, Utf8.encode old = bytes) ∧
      disk.readSource ['s'] = .error (.encoding ['s'] 6) ∧ saved.2 = .ok ⟨[], 0⟩ ∧
      saved.1.Holds ['s'] text ∧ ¬ Faithful bytes text := by
  intro bytes disk saved text
  have hbytes : ¬ ∃ old, Utf8.encode old = bytes := by
    rintro ⟨old, hold⟩
    have hread := Utf8.decodeLossy_encode old
    rw [hold] at hread
    have hwritten : Utf8.encode (Utf8.decodeLossy bytes) ≠ bytes := by decide +kernel
    exact hwritten (hread ▸ hold)
  have hran : saved.1.Holds ['s'] text := by
    show Disk.entry? saved.1 ['s'] = some (.file (Utf8.encode text))
    decide +kernel
  refine ⟨by decide +kernel, hbytes, by decide +kernel, by decide +kernel, hran, ?_⟩
  rintro ⟨old, -, hold, -⟩
  exact hbytes ⟨old, hold⟩

end SettingsFile

end Repath

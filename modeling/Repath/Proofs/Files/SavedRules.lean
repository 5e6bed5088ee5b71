/-
Saved rules are loaded again. A document that a reader gave, with whole numbers, stays one that is
read back when rules are written into it (`Settings.printable_writeFields`), and no text that writes
a document counts as binary. Hence a save that meets no error of the system loses nothing: the file
writes the old document with the new rules, the rules that are loaded are those that were kept, and
saving them again leaves the file (`saveRules_load`). A file that cannot be used is left alone.
-/
import Repath.Proofs.Files.SettingsFile
import Repath.Proofs.Json.Readback

namespace Repath

open Json (Printable)

/-! ## Rules in a document that is read back -/

theorem Rule.printable_toJson {depth : Nat} (rule : Rule) : Printable (depth + 2) rule.toJson := by
  have hkeys : [enabledKey, exemptPathsKey, sourceKey, nameKey, targetKey].Pairwise (· < ·) := by
    decide
  have hpaths : Printable (depth + 1) (.array (rule.exemptPaths.map .string)) := by
    refine .array fun j hj => ?_
    obtain ⟨path, -, rfl⟩ := List.mem_map.1 hj
    exact .string path
  refine Printable.object_iff.2 ⟨List.pairwise_map.1 hkeys, ?_⟩
  simp only [List.forall_mem_cons]
  exact ⟨⟨.bool _, .bool _⟩, hpaths, .string _, .string _, .string _, List.forall_mem_nil _⟩

theorem Rule.printable_listToJson {depth : Nat} (rules : List Rule) :
    Printable (depth + 3) (listToJson rules) := by
  refine .array fun j hj => ?_
  obtain ⟨rule, -, rfl⟩ := List.mem_map.1 hj
  exact printable_toJson rule

/-- Rules are written five containers deep at most, with the document and the section around. -/
theorem Settings.printable_writeFields {depth : Nat} {fields : Json.Fields}
    (h : Printable (depth + 5) (.object fields)) (rules : List Rule) :
    Printable (depth + 5) (.object (writeFields rules fields)) := by
  cases hshape : shapeOf fields with
  | nested =>
    obtain ⟨inner, hinner⟩ := shapeOf_eq_nested_iff.1 hshape
    rw [writeFields_nested rules hinner]
    exact h.insertField ((h.lookup hinner).insertField (Rule.printable_listToJson rules))
  | flat =>
    rw [writeFields_flat rules hshape]
    exact h.insertField (Rule.printable_listToJson rules)
  | bare =>
    rw [writeFields_bare rules hshape]
    exact h.insertField (Rule.printable_listToJson rules)

namespace SettingsFile

variable {disk : Disk} {path text : Text} {fields : Json.Fields}

/-! ## What a save reads and writes -/

theorem parse?_spec {document : Json} (h : parse? text = some document) :
    Json.Formed Json.maxDepth document ∧ '\x00' ∉ text := by
  unfold parse? at h
  split at h
  · rename_i hblank
    obtain rfl := Option.some.inj h
    refine ⟨.object .nil (List.forall_mem_nil _), fun hnul => ?_⟩
    exact absurd (List.all_eq_true.1 hblank '\x00' hnul) (by decide)
  · exact Json.read?_spec h

/-- A text within the limit that writes a document is what the file is read as. -/
theorem reads_of_holds {document : Json} (hfile : disk.Holds path text)
    (hsize : (Utf8.encode text).length ≤ Disk.maxTextBytes) (h : parse? text = some document) :
    Reads disk path document := by
  have hbinary := Disk.isBinary_encode (parse?_spec h).2
  exact .inr ⟨Utf8.encode text, hfile, hsize, hbinary, by rwa [Utf8.decodeLossy_encode]⟩

/-- The document of the settings file, where nothing in the file is lost when it is written anew:
the file is missing, or it is a text within the limit, blank or of an object, and all numbers of the
document are whole, as those that are written as whole literals of 64 bits are, minus zero apart
(`Json.assemble_eq_whole_iff`). -/
structure Intact (disk : Disk) (path : Text) (fields : Json.Fields) : Prop where
  file : disk.entry? path = none ∧ fields = [] ∨ ∃ text, disk.Holds path text ∧
    (Utf8.encode text).length ≤ Disk.maxTextBytes ∧ parse? text = some (.object fields)
  whole : Json.Whole (.object fields)

theorem Intact.reads (h : Intact disk path fields) : Reads disk path (.object fields) := by
  rcases h.file with ⟨hnone, rfl⟩ | ⟨text, hfile, hsize, hparse⟩
  · exact .inl ⟨hnone, rfl⟩
  · exact reads_of_holds hfile hsize hparse

theorem Intact.printable (h : Intact disk path fields) : Printable Json.maxDepth (.object fields) := by
  refine ⟨?_, h.whole⟩
  rcases h.file with ⟨-, rfl⟩ | ⟨text, -, -, hparse⟩
  · exact .object .nil (List.forall_mem_nil _)
  · exact (parse?_spec hparse).1

/-- The system refused the folder of the settings file, or the file itself. -/
inductive WriteError (path : Text) : Failure → Prop
  | folder (folder : Text) (e : FileError) : WriteError path ⟨[.createFolder folder], .file e⟩
  | file (e : FileError) : WriteError path ⟨[.writeSettings path], .file e⟩

/-- The document with rules in it, as it is written. -/
def savedText (rules : List Rule) (fields : Json.Fields) : Text :=
  (Json.object (Settings.writeFields rules fields)).pretty ++ ['\n']

/-- Where the document can be used, only the system can keep a save from writing it. -/
theorem saveRules_of_reads (h : Reads disk path (.object fields)) (raw : Json) :
    (∃ failure, (saveRules disk path raw).2 = .error failure ∧ WriteError path failure) ∨
      (saveRules disk path raw).2 = .ok (Settings.prepare raw) ∧
        (saveRules disk path raw).1.Holds path (savedText (Settings.prepare raw).kept fields) := by
  have htext : textWithRules disk path (Settings.prepare raw).kept =
      .ok (savedText (Settings.prepare raw).kept fields) :=
    textWithRules_eq_ok_iff.2 ⟨fields, h, rfl⟩
  unfold saveRules
  simp only [htext]
  split
  · rename_i made failure hmade
    refine .inl ⟨failure, rfl, ?_⟩
    unfold makeFolder at hmade
    split at hmade
    · cases hmade
    · rename_i folder hfolder
      cases hmake : disk.makeFolders folder with
      | mk found result =>
        rw [hmake] at hmade
        obtain ⟨-, hresult⟩ := Prod.mk.inj hmade
        cases result with
        | error e =>
          obtain rfl := Except.error.inj hresult
          exact .folder folder e
        | ok _ => cases hresult
  · rename_i ready hready
    cases hreplace : ready.replaceText path (savedText (Settings.prepare raw).kept fields) with
    | error e => exact .inl ⟨_, rfl, .file e⟩
    | ok after =>
      obtain ⟨place, -, hplace, hleft, -⟩ := Disk.replaceFile_spec hreplace
      exact .inr ⟨rfl, Disk.entry?_eq_some_iff.2 ⟨place, hplace, hleft⟩⟩

/-- A save that fails leaves the file, also if the system refused it. -/
theorem holds_of_saveRules_error {raw : Json} {failure : Failure} (hfile : disk.Holds path text)
    (h : (saveRules disk path raw).2 = .error failure) :
    (saveRules disk path raw).1.Holds path text := by
  obtain ⟨after, _, hsaved, hkeeps⟩ | ⟨_, after, _, hsaved, -⟩ := saveRules_cases disk path raw
  · rw [hsaved]
    exact hkeeps.entry? hfile
  · rw [hsaved] at h
    cases h

theorem saveRules_of_unusable (h : Unusable disk path) (raw : Json) :
    ∃ failure, saveRules disk path raw = (disk, .error failure) := by
  unfold saveRules
  dsimp only
  cases htext : textWithRules disk path (Settings.prepare raw).kept with
  | error failure => exact ⟨failure, rfl⟩
  | ok text =>
    obtain ⟨fields, hreads, -⟩ := textWithRules_eq_ok_iff.1 htext
    exact absurd hreads (unusable_iff.1 h fields)

theorem parse?_pretty (h : Printable Json.maxDepth (.object fields)) :
    parse? ((Json.object fields).pretty ++ ['\n']) = some (.object fields) := by
  have hbrace : '{' ∈ (Json.object fields).pretty ++ ['\n'] := by
    refine List.mem_append_left _ ?_
    show '{' ∈ Json.block '{' '}' 0 (Json.prettyFields 1 fields)
    cases Json.prettyFields 1 fields with
    | nil => exact List.mem_cons_self
    | cons t texts => exact List.mem_cons_self
  rw [parse?, if_neg fun hblank => ?_, Json.read?_pretty h]
  exact absurd (List.all_eq_true.1 hblank '{' hbrace) (by decide)

/-- Rules are saved and loaded again. A save to a file in which nothing is lost gives the kept rules,
if the system lets it write and the text stays within the limit. The file then writes the old
document with these rules, and it is loaded as before but for them; to save the same entries again
leaves the file. A file that cannot be used is left alone, with the whole disk. -/
theorem saveRules_load (disk : Disk) (path : Text) (raw : Json) :
    let kept := (Settings.prepare raw).kept
    let saved := saveRules disk path raw
    (∀ fields, Intact disk path fields →
      (∀ failure, saved.2 = .error failure → ¬ WriteError path failure) →
      (Utf8.encode (savedText kept fields)).length ≤ Disk.maxTextBytes →
      (saved.2 = .ok (Settings.prepare raw) ∧ saved.1.Holds path (savedText kept fields)) ∧
      (Json.read? (savedText kept fields) = some (.object (Settings.writeFields kept fields)) ∧
        Settings.AgreeButRules (.object fields) (.object (Settings.writeFields kept fields))) ∧
      (∃ before, load disk path = .ok before ∧
        load saved.1 path = .ok { before with rules := kept }) ∧
      (saveRules saved.1 path raw).1.Holds path (savedText kept fields)) ∧
    (Unusable disk path → saved.1 = disk ∧ ∃ failure, saved.2 = .error failure) := by
  intro kept saved
  have hclean : ∀ rule ∈ kept, rule.Clean := fun rule hrule => Rule.clean_of_mem_listOfJson hrule
  refine ⟨fun fields hintact hwritten hsize => ?_, fun hunusable => ?_⟩
  · obtain ⟨hok, hfile⟩ := (saveRules_of_reads hintact.reads raw).resolve_left
      fun ⟨failure, hfailure, herror⟩ => hwritten failure hfailure herror
    have hprintable : Printable Json.maxDepth (.object (Settings.writeFields kept fields)) :=
      Settings.printable_writeFields hintact.printable kept
    have hread := Json.read?_pretty hprintable
    have hreads : Reads saved.1 path _ := reads_of_holds hfile hsize (parse?_pretty hprintable)
    refine ⟨⟨hok, hfile⟩, ⟨hread, Settings.agreeButRules_writeFields kept fields⟩, ?_, ?_⟩
    · refine ⟨Config.ofSection (Settings.sectionOf fields),
        load_eq_ok_iff.2 ⟨fields, hintact.reads, rfl⟩, load_eq_ok_iff.2 ⟨_, hreads, ?_⟩⟩
      exact congrArg Except.ok (Settings.ofSection_writeFields hclean fields)
    · rcases saveRules_of_reads hreads raw with ⟨failure, hfailure, -⟩ | ⟨-, hagain⟩
      · exact holds_of_saveRules_error hfile hfailure
      · rwa [savedText, Settings.writeFields_writeFields] at hagain
  · obtain ⟨failure, hsaved⟩ := saveRules_of_unusable hunusable raw
    have hsaved : saved = (disk, .error failure) := hsaved
    rw [hsaved]
    exact ⟨rfl, failure, rfl⟩

/-- A file with a key that is written as an escape, with the least and the greatest whole number and
with a folder around it; a rule is saved that was submitted among other entries. -/
theorem saveRules_load_escaped :
    let fields : Json.Fields := [(['\x00'], .string ['\n']),
      (['n'], .array [.number (.whole (-9223372036854775808)), .nat 18446744073709551615])]
    let old : Text := (Json.object fields).pretty ++ ['\n']
    let path : Text := "d/s".toList
    let disk : Disk := { files := [([['d'], ['s']], Utf8.encode old)], folders := [[['d']]] }
    let rule : Rule := { name := ['r'], source := ['a'], target := [], exemptPaths := [['p']] }
    let saved := saveRules disk path (.array [.null, rule.toJson])
    Intact disk path fields ∧ saved.2 = .ok ⟨[rule], 1⟩ ∧
      (Utf8.encode (savedText [rule] fields)).length ≤ Disk.maxTextBytes ∧
      saved.1.Holds path (savedText [rule] fields) ∧ load saved.1 path = .ok { rules := [rule] } := by
  intro fields old path disk rule saved
  have hprepare : Settings.prepare (.array [.null, rule.toJson]) = ⟨[rule], 1⟩ := by decide
  have hsize : (Utf8.encode (savedText [rule] fields)).length ≤ Disk.maxTextBytes := by
    decide +kernel
  have hok : saved.2 = .ok ⟨[rule], 1⟩ := by decide +kernel
  have hkeys : [['\x00'], ['n']].Pairwise (· < ·) := by decide
  have hfields : Printable Json.maxDepth (.object fields) := by
    refine Printable.object_iff.2 ⟨List.pairwise_map.1 hkeys, ?_⟩
    simp only [fields, List.forall_mem_cons]
    refine ⟨.string _, .array ?_, List.forall_mem_nil _⟩
    simp only [List.forall_mem_cons]
    exact ⟨⟨.whole (by decide) (by decide), .number _⟩,
      ⟨.whole (by decide) (by decide), .number _⟩, List.forall_mem_nil _⟩
  have hold : disk.Holds path old := by
    show Disk.entry? disk path = some (.file (Utf8.encode old))
    decide +kernel
  have hintact : Intact disk path fields :=
    ⟨.inr ⟨old, hold, by decide +kernel, parse?_pretty hfields⟩, hfields.whole⟩
  have hall := (saveRules_load disk path (.array [.null, rule.toJson])).1 fields hintact
    (fun failure hfailure => by cases hok.symm.trans hfailure)
  rw [hprepare] at hall
  obtain ⟨⟨-, hfile⟩, -, ⟨before, hbefore, hafter⟩, -⟩ := hall hsize
  have hload : load disk path = .ok {} := by decide +kernel
  obtain rfl := Except.ok.inj (hload.symm.trans hbefore)
  exact ⟨hintact, hok, hsize, hfile, hafter⟩

end SettingsFile

end Repath

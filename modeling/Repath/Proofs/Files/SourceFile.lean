/-
Edits of a source file, byte for byte. The line feeds of a text are the bytes 0x0A of its encoding
(`splitOn_encode`), so edits that go through replace whole segments between these bytes and leave
the bytes of all other segments as they are, whatever they encode (`edit_bytes`). One edit of a
missing line stops all of them, and a file with bytes that are no text is neither opened nor written.
-/
import Repath.Proofs.Edit
import Repath.Proofs.Files.SharedFile
import Repath.Proofs.Text.Lines

namespace Repath

/-! ## Lines of bytes -/

namespace Utf8

open Text (lines joinLines)

theorem encode_joinLines : ∀ ls : List Text,
    encode (joinLines ls) = [0x0A].intercalate (ls.map encode)
  | [] => rfl
  | [l] => by simp [joinLines]
  | l :: m :: ls => by
    rw [Text.joinLines_cons l (List.cons_ne_nil m ls), encode_append, List.map_cons,
      List.intercalate_cons_of_ne_nil (by simp), ← encode_joinLines (m :: ls), List.append_assoc]
    rfl

theorem splitOn_encode (t : Text) : (encode t).splitOn 0x0A = (lines t).map encode := by
  have hfeed : ∀ l ∈ (lines t).map encode, (0x0A : UInt8) ∉ l := by
    intro l hl
    obtain ⟨line, hline, rfl⟩ := List.mem_map.1 hl
    rw [mem_encode_iff (by decide)]
    exact Text.newline_notMem_of_mem_lines hline
  have hne : (lines t).map encode ≠ [] := by simpa using Text.lines_ne_nil t
  calc (encode t).splitOn 0x0A
      = (encode (joinLines (lines t))).splitOn 0x0A := by rw [Text.joinLines_lines]
    _ = ([0x0A].intercalate ((lines t).map encode)).splitOn 0x0A := by rw [encode_joinLines]
    _ = (lines t).map encode := List.splitOn_intercalate 0x0A hfeed hne

end Utf8

namespace SourceFile

variable {disk : Disk} {path : Text} {bytes : Bytes} {file : SourceFile} {edits others : List LineEdit}

/-- The bytes with the last edit of each line in place of the line. -/
def editedBytes (edits : List LineEdit) (bytes : Bytes) : Bytes :=
  [0x0A].intercalate ((bytes.splitOn 0x0A).mapIdx fun n segment =>
    ((LineEdit.lastOn edits n).map Utf8.encode).getD segment)

theorem editedBytes_encode (edits : List LineEdit) (text : Text) :
    editedBytes edits (Utf8.encode text) = Utf8.encode (Text.joinLines
      (text.lines.mapIdx fun n line => (LineEdit.lastOn edits n).getD line)) := by
  rw [Utf8.encode_joinLines, editedBytes, Utf8.splitOn_encode]
  congr 1
  refine List.ext_getElem? fun n => ?_
  simp only [List.getElem?_mapIdx, List.getElem?_map, Option.map_map]
  congr 1
  funext line
  cases LineEdit.lastOn edits n <;> rfl

/-! ## Opening -/

theorem open?_eq_ok_iff : open? disk path = .ok file ↔
    file = ofText path file.snapshot ∧ disk.readSource path = .ok file.snapshot := by
  unfold open?
  cases disk.readSource path with
  | error e => simp [Except.map]
  | ok text =>
    simp only [Except.map, Except.ok.injEq]
    constructor
    · rintro rfl
      exact ⟨rfl, rfl⟩
    · rintro ⟨hfile, rfl⟩
      exact hfile.symm

/-! ## Editing -/

theorem edited_of_missing (disk : Disk) (h : ∃ edit ∈ edits, file.snapshot.lines.length ≤ edit.line) :
    reply disk file edits = .declined ∧ edited disk file edits = (disk, file) := by
  obtain ⟨n, hmissing⟩ := LineEdit.applyAll_missing h
  have hedit : edit disk file edits = .ok (disk, file, .missingLine n) := by
    unfold edit
    rw [hmissing]
  simp [reply, edited, kind, hedit]

/-- Edits of a file that reads as its snapshot go through if the disk takes the edited bytes. -/
theorem edited_of_written (hread : disk.readSource file.path = .ok file.snapshot)
    (hin : ∀ edit ∈ edits, edit.line < file.snapshot.lines.length) {after : Disk}
    (hwrite : disk.replaceFile file.path (editedBytes edits (Utf8.encode file.snapshot)) = .ok after) :
    reply disk file edits = .accepted ∧ ∃ text,
      Utf8.encode text = editedBytes edits (Utf8.encode file.snapshot) ∧
        edited disk file edits = (after, { file with snapshot := text }) := by
  rw [editedBytes_encode] at hwrite ⊢
  have happly := LineEdit.applyAll_ok hin
  generalize Text.joinLines (file.snapshot.lines.mapIdx _) = text at happly hwrite ⊢
  have hedit : edit disk file edits = .ok (after, { file with snapshot := text }, .written) := by
    unfold edit Disk.replaceText
    simp only [happly, hread, hwrite, if_true]
  exact ⟨by simp [reply, kind, hedit], text, rfl, by simp [edited, kind, hedit]⟩

/-- Only the order of the edits of one line counts. -/
theorem edited_of_sameByLine (disk : Disk) (file : SourceFile)
    (h : LineEdit.SameByLine edits others) :
    reply disk file others = reply disk file edits ∧
      edited disk file others = edited disk file edits := by
  by_cases hin : ∀ edit ∈ edits, edit.line < file.snapshot.lines.length
  · have hedit : edit disk file others = edit disk file edits := by
      have hin' : ∀ edit ∈ others, edit.line < file.snapshot.lines.length :=
        fun edit hmem => hin edit ((h.mem_iff edit).1 hmem)
      unfold edit
      simp only [LineEdit.applyAll_ok hin, LineEdit.applyAll_ok hin', h.lastOn]
    unfold reply edited kind
    simp only [hedit]
    cases edit disk file edits <;> exact ⟨rfl, rfl⟩
  · simp only [not_forall, Nat.not_lt] at hin
    obtain ⟨edit, hmem, hout⟩ := hin
    obtain ⟨hreply, hedited⟩ := edited_of_missing disk ⟨edit, hmem, hout⟩
    obtain ⟨hreply', hedited'⟩ := edited_of_missing disk ⟨edit, (h.mem_iff edit).2 hmem, hout⟩
    exact ⟨hreply'.trans hreply.symm, hedited'.trans hedited.symm⟩

/-! ## Files that are no text -/

/-- A file with a NUL near its start, or with bytes that are those of no text. -/
def NoText (bytes : Bytes) : Prop :=
  0 ∈ bytes.take binaryWindow ∨ ¬ ∃ text, Utf8.encode text = bytes

theorem readSource_ne_ok_of_noText (hfile : disk.entry? path = some (.file bytes))
    (h : NoText bytes) (text : Text) : disk.readSource path ≠ .ok text := by
  intro hread
  obtain ⟨hholds, -, hbinary⟩ := Disk.readSource_eq_ok_iff.1 hread
  obtain rfl := Entry.file.inj (Option.some.inj (hfile.symm.trans hholds))
  rcases h with hnul | hnone
  · rw [isBinary, ← Bool.not_eq_true, List.contains_iff_mem] at hbinary
    exact hbinary hnul
  · exact hnone ⟨text, rfl⟩

/-- Edits of a file that held `bytes` when it was opened and still does. Only the order of edits of
the same line counts. If all lines are there and the disk takes the edited bytes, the edits are
accepted and the file holds these bytes: the segments between line feeds, each that is addressed
replaced by the last edit of it, all others as they were. If one line is missing, the edits are
declined and nothing changes. A file that is no text is never opened, and an older snapshot never
writes over it. -/
theorem edit_bytes (hfile : disk.entry? path = some (.file bytes)) :
    (∀ file later edits, open? disk path = .ok file → later.entry? path = some (.file bytes) →
      (∀ others, LineEdit.SameByLine edits others →
        reply later file others = reply later file edits ∧
          edited later file others = edited later file edits) ∧
      ((∀ edit ∈ edits, edit.line < (bytes.splitOn 0x0A).length) → ∀ after,
        later.replaceFile path (editedBytes edits bytes) = .ok after →
          reply later file edits = .accepted ∧ (edited later file edits).1 = after ∧
          after.entry? path = some (.file (editedBytes edits bytes)) ∧
          Utf8.encode (edited later file edits).2.snapshot = editedBytes edits bytes ∧
          ∀ place, later.place? path ≠ some place → after.at? place = later.at? place) ∧
      ((∃ edit ∈ edits, (bytes.splitOn 0x0A).length ≤ edit.line) →
        reply later file edits = .declined ∧ edited later file edits = (later, file))) ∧
    (NoText bytes →
      (∀ file, open? disk path ≠ .ok file) ∧
        ∀ file edits, file.path = path → edited disk file edits = (disk, file)) := by
  refine ⟨fun file later edits hopen hlater => ?_, fun hno => ⟨fun file hopen => ?_, ?_⟩⟩
  · obtain ⟨hofText, hread⟩ := open?_eq_ok_iff.1 hopen
    obtain ⟨hholds, hsize, hbinary⟩ := Disk.readSource_eq_ok_iff.1 hread
    have hpath : file.path = path := by rw [hofText]; rfl
    obtain rfl := Entry.file.inj (Option.some.inj (hfile.symm.trans hholds))
    have hlength : ((Utf8.encode file.snapshot).splitOn 0x0A).length = file.snapshot.lines.length := by
      rw [Utf8.splitOn_encode, List.length_map]
    rw [hlength]
    refine ⟨fun others h => edited_of_sameByLine later file h, fun hin after hwrite => ?_,
      edited_of_missing later⟩
    have hreread : later.readSource file.path = .ok file.snapshot := by
      rw [hpath]
      exact Disk.readSource_eq_ok_iff.2 ⟨hlater, hsize, hbinary⟩
    obtain ⟨hreply, text, htext, hedited⟩ := edited_of_written hreread hin (hpath ▸ hwrite)
    obtain ⟨place, hplace, hafter, hleft, helse⟩ := Disk.replaceFile_spec hwrite
    refine ⟨hreply, by rw [hedited], Disk.entry?_eq_some_iff.2 ⟨place, hafter, hleft⟩,
      by rw [hedited, htext], fun other hother => helse other fun h => hother ?_⟩
    rw [hplace, h]
  · exact readSource_ne_ok_of_noText hfile hno _ (open?_eq_ok_iff.1 hopen).2
  · rintro file edits rfl
    exact edited_of_not_accepted (not_accepted_of_stale (readSource_ne_ok_of_noText hfile hno _))

/-- Two edits of the last line, which has no line feed, around one of the line before it, in a file
with a carriage return and a character of two bytes; an edit of a fourth line in front of them; and
edits of two lines in both orders. -/
theorem edit_bytes_repeated :
    let bytes : Bytes := [0xC3, 0xA9, 0x0D, 0x0A, 0x62, 0x0A, 0x63]
    let written : Bytes := [0xC3, 0xA9, 0x0D, 0x0A, 0xC3, 0x9F, 0x0A, 0x79]
    let disk : Disk := { files := [([['a']], bytes)] }
    let file : SourceFile := ⟨['a'], "plaintext".toList, "é\r\nb\nc".toList⟩
    let edits : List LineEdit := [⟨2, ['x']⟩, ⟨1, ['ß']⟩, ⟨2, ['y']⟩]
    disk.entry? ['a'] = some (.file bytes) ∧ open? disk ['a'] = .ok file ∧
      reply disk file edits = .accepted ∧
      Disk.entry? (edited disk file edits).1 ['a'] = some (.file written) ∧
      edited disk file (⟨3, []⟩ :: edits) = (disk, file) ∧
      edited disk file [⟨2, ['x']⟩, ⟨1, ['ß']⟩] = edited disk file [⟨1, ['ß']⟩, ⟨2, ['x']⟩] := by
  intro bytes written disk file edits
  have hfile : disk.entry? ['a'] = some (.file bytes) := by decide +kernel
  have hopen : open? disk ['a'] = .ok file := by decide +kernel
  have hsame : editedBytes edits bytes = written := by decide +kernel
  have hwrite : disk.replaceFile ['a'] (editedBytes edits bytes) =
      .ok (disk.putFile [['a']] written (.arrived none)) := by decide +kernel
  have hspec := fun edits => (edit_bytes hfile).1 file disk edits hopen hfile
  obtain ⟨-, hwritten, -⟩ := hspec edits
  obtain ⟨haccepted, hafter, hleft, -⟩ := hwritten (by decide) _ hwrite
  have hdistinct := LineEdit.SameByLine.of_perm
    (List.Perm.swap (⟨2, ['x']⟩ : LineEdit) ⟨1, ['ß']⟩ []) (by decide)
  exact ⟨hfile, hopen, haccepted, by rw [hafter, hleft, hsame],
    ((hspec _).2.2 ⟨_, List.mem_cons_self .., by decide⟩).2, ((hspec _).1 _ hdistinct).2⟩

end SourceFile

end Repath

/-
What a disk holds after a file was put or replaced. Names lead through folders only, so putting a
file changes where no name leads (`place?_putFile`); a file that was replaced holds the new bytes
and every other place what it held before (`replaceFile_spec`). Making folders takes nothing away:
every file is found as before under the names that it had (`Keeps.entry?`). A text that may be
written back is read from exactly the bytes of its encoding (`readSource_eq_ok_iff`).
-/
import Repath.Files.Reading
import Repath.Proofs.Utf8

namespace Repath.Disk

/-! ## Files at places -/

theorem lookup_filter_of_ne {α β : Type} [BEq α] [LawfulBEq α] {key other : α} (h : other ≠ key) :
    ∀ rows : List (α × β), (rows.filter fun row => row.1 != key).lookup other = rows.lookup other
  | [] => rfl
  | (k, value) :: rows => by
    by_cases hk : k = key
    · subst hk
      rw [List.filter_cons_of_neg (by simp), lookup_filter_of_ne h rows, List.lookup_cons,
        beq_false_of_ne h]
    · rw [List.filter_cons_of_pos (by simpa using hk), List.lookup_cons, List.lookup_cons,
        lookup_filter_of_ne h rows]

section

variable {disk : Disk} {place : Place} {bytes : Bytes} {kind : ChangeKind}

theorem isFolder_putFile (other : Place) :
    (disk.putFile place bytes kind).isFolder other = disk.isFolder other := rfl

theorem at?_putFile_self (h : disk.isFolder place = false) :
    (disk.putFile place bytes kind).at? place = some (.file bytes) := by
  rw [at?, isFolder_putFile, h, if_neg Bool.false_ne_true]
  simp [putFile, note]

theorem at?_putFile_of_ne {other : Place} (h : other ≠ place) :
    (disk.putFile place bytes kind).at? other = disk.at? other := by
  have hlookup : (disk.putFile place bytes kind).files.lookup other = disk.files.lookup other := by
    rw [← lookup_filter_of_ne h disk.files]
    simp [putFile, note, List.lookup_cons, beq_false_of_ne h]
  rw [at?, at?, hlookup, isFolder_putFile]

/-! ## Names -/

/-- Only the folders count on the way. -/
theorem walk_putFile : ∀ (start : Place) (names : List Text),
    (disk.putFile place bytes kind).walk start names = disk.walk start names
  | _, [] => by rw [walk, walk]
  | start, name :: rest => by
    simp only [walk, walk_putFile start rest, walk_putFile start.dropLast rest,
      walk_putFile (start ++ [name]) rest, isFolder_putFile]

theorem place?_putFile (path : Text) :
    (disk.putFile place bytes kind).place? path = disk.place? path := by
  simp only [place?, walk_putFile, isFolder_putFile]
  rfl

end

variable {disk after : Disk} {path : Text}

/-- A file that is there has a place that holds it. -/
theorem entry?_eq_some_iff {entry : Entry} :
    disk.entry? path = some entry ↔ ∃ place, disk.place? path = some place ∧
      disk.at? place = some entry := by
  unfold entry?
  rw [Option.bind_eq_some_iff]

/-- A name that may be replaced leads to a place that is no folder. -/
theorem target?_spec {place : Place} (h : disk.target? path = some place) :
    disk.place? path = some place ∧ disk.isFolder place = false := by
  unfold target? at h
  split at h
  case h_1 name there hname hplace =>
    rw [Option.ite_none_left_eq_some, Bool.not_eq_true, Bool.or_eq_false_iff] at h
    obtain ⟨⟨-, hfolder⟩, h⟩ := h
    obtain rfl := Option.some.inj h
    exact ⟨hplace, hfolder⟩
  case h_2 => cases h

/-- A replaced file holds the new bytes; nothing else changes. -/
theorem replaceFile_spec {bytes : Bytes} (h : disk.replaceFile path bytes = .ok after) :
    ∃ place, disk.place? path = some place ∧ after.place? path = some place ∧
      after.at? place = some (.file bytes) ∧
      ∀ other, other ≠ place → after.at? other = disk.at? other := by
  unfold replaceFile at h
  split at h
  case h_1 => cases h
  case h_2 place htarget =>
    obtain ⟨hplace, hfolder⟩ := target?_spec htarget
    split at h
    case isFalse => cases h
    case isTrue =>
      obtain rfl := Except.ok.inj h
      exact ⟨place, hplace, by rw [place?_putFile, hplace], at?_putFile_self hfolder,
        fun other hother => at?_putFile_of_ne hother⟩

/-! ## Folders -/

/-- The disk afterwards has all the files and folders of the disk before. -/
structure Keeps (before after : Disk) : Prop where
  workingFolder : after.workingFolder = before.workingFolder
  folders : ∀ place, before.isFolder place = true → after.isFolder place = true
  files : ∀ place bytes, before.at? place = some (.file bytes) →
    after.at? place = some (.file bytes)

theorem Keeps.refl (disk : Disk) : Keeps disk disk :=
  ⟨rfl, fun _ h => h, fun _ _ h => h⟩

theorem Keeps.trans {last : Disk} (h : Keeps disk after) (h' : Keeps after last) :
    Keeps disk last where
  workingFolder := h'.workingFolder.trans h.workingFolder
  folders place hfolder := h'.folders place (h.folders place hfolder)
  files place bytes hfile := h'.files place bytes (h.files place bytes hfile)

theorem isFolder_of_at?_eq_file {place : Place} {bytes : Bytes}
    (h : disk.at? place = some (.file bytes)) : disk.isFolder place = false := by
  unfold at? at h
  split at h
  · cases h
  · rename_i hfolder
    exact Bool.eq_false_iff.2 hfolder

/-- A folder is made where no file is. -/
theorem keeps_putFolder {place : Place} (h : ∀ bytes, disk.at? place ≠ some (.file bytes)) :
    Keeps disk (disk.putFolder place) := by
  unfold putFolder
  split
  · exact .refl disk
  · have hmore (other : Place) :
        ({ disk with folders := place :: disk.folders }.note place .written).isFolder other =
          (other == place || disk.isFolder other) := by
      simp only [isFolder, note, List.contains_cons]
      rw [Bool.or_left_comm]
    refine ⟨rfl, fun other hother => by rw [hmore, hother, Bool.or_true], ?_⟩
    intro other bytes hother
    have hne : other ≠ place := fun heq => h bytes (heq ▸ hother)
    have hno := isFolder_of_at?_eq_file hother
    rw [at?, if_neg (by simp [hno])] at hother
    rw [at?, hmore, hno, beq_false_of_ne hne, if_neg (by decide)]
    exact hother

theorem keeps_makeFoldersFrom : ∀ (names : List Text) (disk : Disk) (place : Place),
    Keeps disk (disk.makeFoldersFrom place names).1
  | [], disk, _ => .refl disk
  | name :: rest, disk, place => by
    unfold makeFoldersFrom
    split_ifs
    · exact keeps_makeFoldersFrom rest disk place
    · exact keeps_makeFoldersFrom rest disk place.dropLast
    · exact .refl disk
    · dsimp only
      split
      · exact .refl disk
      · rename_i hfile
        exact (keeps_putFolder hfile).trans (keeps_makeFoldersFrom rest _ (place ++ [name]))

theorem keeps_makeFolders (disk : Disk) (path : Text) : Keeps disk (disk.makeFolders path).1 := by
  unfold makeFolders
  split
  · exact keeps_makeFoldersFrom _ disk _
  · exact .refl disk

theorem Keeps.walk (h : Keeps disk after) : ∀ {names : List Text} {start place : Place},
    disk.walk start names = some place → after.walk start names = some place
  | [], _, _, hwalk => hwalk
  | name :: rest, start, place, hwalk => by
    rw [Disk.walk] at hwalk ⊢
    split_ifs at hwalk ⊢ with hhere habove hfits
    · exact h.walk hwalk
    · exact h.walk hwalk
    · dsimp only at hwalk ⊢
      rw [Option.ite_none_right_eq_some] at hwalk ⊢
      obtain ⟨hway, hwalk⟩ := hwalk
      -- every folder on the way is still one
      refine ⟨?_, h.walk hwalk⟩
      rw [Bool.or_eq_true] at hway ⊢
      exact hway.imp_right (h.folders _)

theorem Keeps.place? (h : Keeps disk after) {place : Place}
    (hplace : disk.place? path = some place) : after.place? path = some place := by
  have horigin : after.origin path = disk.origin path := by rw [origin, h.workingFolder, origin]
  unfold Disk.place? at hplace ⊢
  rw [Option.ite_none_left_eq_some] at hplace ⊢
  obtain ⟨hname, hplace⟩ := hplace
  refine ⟨hname, ?_⟩
  rw [horigin]
  split at hplace
  · cases hplace
  · rename_i found hwalk
    rw [Option.ite_none_left_eq_some] at hplace
    obtain ⟨hfolder, hplace⟩ := hplace
    simp only [h.walk hwalk]
    rw [if_neg, hplace]
    intro hcond
    simp only [Bool.and_eq_true, Bool.not_eq_true'] at hcond hfolder
    refine hfolder ⟨hcond.1, ?_⟩
    cases hin : disk.isFolder found with
    | false => rfl
    | true => exact absurd (hcond.2.symm.trans (h.folders found hin)) Bool.false_ne_true

/-- A file that was there is found under the names that it had. -/
theorem Keeps.entry? (h : Keeps disk after) {bytes : Bytes}
    (hentry : disk.entry? path = some (.file bytes)) : after.entry? path = some (.file bytes) := by
  obtain ⟨place, hplace, hfile⟩ := entry?_eq_some_iff.1 hentry
  exact entry?_eq_some_iff.2 ⟨place, h.place? hplace, h.files place bytes hfile⟩

/-! ## Reading -/

theorem readBytes_eq_ok_iff {limit : Nat} {bytes : Bytes} :
    disk.readBytes path limit = .ok bytes ↔
      disk.entry? path = some (.file bytes) ∧ bytes.length ≤ limit := by
  unfold readBytes
  cases disk.entry? path with
  | none => simp
  | some entry =>
    cases entry with
    | folder => simp
    | file found =>
      by_cases hlarge : limit < found.length
      · simp only [if_pos hlarge, reduceCtorEq, Option.some.injEq, Entry.file.injEq, false_iff]
        rintro ⟨rfl, hsmall⟩
        omega
      · simp only [if_neg hlarge, Except.ok.injEq, Option.some.injEq, Entry.file.injEq]
        exact ⟨fun h => ⟨h, h ▸ Nat.not_lt.1 hlarge⟩, And.left⟩

/-- A file is read leniently within the limit and without a NUL near its start. -/
theorem readText_eq_ok_iff {limit : Nat} {text : Text} :
    disk.readText path limit = .ok text ↔ ∃ bytes, disk.entry? path = some (.file bytes) ∧
      bytes.length ≤ limit ∧ isBinary bytes = false ∧ Utf8.decodeLossy bytes = text := by
  unfold readText
  constructor
  · intro h
    split at h
    · cases h
    · rename_i bytes hbytes
      obtain ⟨hentry, hsize⟩ := readBytes_eq_ok_iff.1 hbytes
      unfold decodeLossy at h
      split at h
      · cases h
      · exact ⟨bytes, hentry, hsize, Bool.eq_false_iff.2 ‹_›, Except.ok.inj h⟩
  · rintro ⟨bytes, hentry, hsize, hbinary, rfl⟩
    rw [readBytes_eq_ok_iff.2 ⟨hentry, hsize⟩]
    simp [decodeLossy, hbinary]

theorem readText_eq_notFound_iff {limit : Nat} {missing : Text} :
    disk.readText path limit = .error (.notFound missing) ↔
      disk.entry? path = none ∧ missing = path := by
  unfold readText readBytes
  cases disk.entry? path with
  | none => simp [eq_comm]
  | some entry =>
    cases entry with
    | folder => simp
    | file bytes =>
      unfold decodeLossy
      by_cases hlarge : limit < bytes.length
      · simp [hlarge]
      · cases hbinary : isBinary bytes <;> simp [hlarge, hbinary]

/-- Only a NUL in it makes a text count as binary. -/
theorem isBinary_encode {text : Text} (h : '\x00' ∉ text) : isBinary (Utf8.encode text) = false := by
  rw [isBinary, List.contains_eq_mem, decide_eq_false_iff_not]
  exact fun hmem => h ((Utf8.mem_encode_iff (by decide)).1 (List.mem_of_mem_take hmem))

theorem decodeStrict_eq_ok_iff {bytes : Bytes} {text : Text} :
    decodeStrict bytes path = .ok text ↔ isBinary bytes = false ∧ Utf8.encode text = bytes := by
  unfold decodeStrict
  cases isBinary bytes with
  | true => simp
  | false =>
    simp only [Bool.false_eq_true, if_false, true_and, ← Utf8.decode_eq_ok_iff]
    cases Utf8.decode bytes <;> simp

/-- A name leads to a file with exactly the bytes of a text. -/
def Holds (disk : Disk) (path text : Text) : Prop :=
  disk.entry? path = some (.file (Utf8.encode text))

theorem Holds.unique {s t : Text} (hs : disk.Holds path s) (ht : disk.Holds path t) : s = t :=
  Utf8.encode_injective (Entry.file.inj (Option.some.inj (hs.symm.trans ht)))

/-- A file reads as a text exactly if it holds the encoding of that text, within the limit and
without a NUL near its start. -/
theorem readSource_eq_ok_iff {limit : Nat} {text : Text} :
    disk.readSource path limit = .ok text ↔ disk.Holds path text ∧
      (Utf8.encode text).length ≤ limit ∧ isBinary (Utf8.encode text) = false := by
  unfold readSource Holds
  cases hbytes : disk.readBytes path limit with
  | error e =>
    simp only [reduceCtorEq, false_iff]
    rintro ⟨hentry, hsize, -⟩
    rw [readBytes_eq_ok_iff.2 ⟨hentry, hsize⟩] at hbytes
    cases hbytes
  | ok bytes =>
    obtain ⟨hentry, hsize⟩ := readBytes_eq_ok_iff.1 hbytes
    simp only [decodeStrict_eq_ok_iff, hentry, Option.some.injEq, Entry.file.injEq]
    constructor
    · rintro ⟨hbinary, rfl⟩
      exact ⟨rfl, hsize, hbinary⟩
    · rintro ⟨rfl, -, hbinary⟩
      exact ⟨hbinary, rfl⟩

theorem holds_of_readSource {limit : Nat} {text : Text}
    (h : disk.readSource path limit = .ok text) : disk.Holds path text :=
  (readSource_eq_ok_iff.1 h).1

end Repath.Disk

/-
Any number of source files opened on one path, on a disk that others change as they like. An
attempt to edit is a commit or nothing (`reply_spec`): a commit found on disk exactly the bytes of
the snapshot, and anything else leaves the disk and the snapshot as they were. So a snapshot that
was overtaken is stuck (`act_keeps_stale`), and what a step of a source file takes from the disk is
a snapshot that the same file took before (`run_taken`).
-/
import Repath.Files.SourceFile
import Repath.Proofs.Files.Disk
import Mathlib.Data.List.Induction
import Mathlib.Tactic.ByContra

namespace Repath

namespace SourceFile

variable {disk : Disk} {file : SourceFile} {edits : List LineEdit}

/-! ## One attempt to edit -/

/-- The disk and the source file after an attempt to edit. -/
def edited (disk : Disk) (file : SourceFile) (edits : List LineEdit) : Disk × SourceFile :=
  (kind.apply edits (disk, file)).1

/-- The reply to an attempt to edit. -/
def reply (disk : Disk) (file : SourceFile) (edits : List LineEdit) : Reply :=
  (kind.apply edits (disk, file)).2.1

/-- The edits went from the snapshot `file` to the snapshot `next`, on disk and in memory. -/
structure Committed (disk : Disk) (file : SourceFile) (edits : List LineEdit) (after : Disk)
    (next : SourceFile) : Prop where
  read : disk.readSource file.path = .ok file.snapshot
  found : disk.Holds file.path file.snapshot
  applied : LineEdit.applyAll edits file.snapshot = .ok next.snapshot
  left : after.Holds file.path next.snapshot
  kept : next = { file with snapshot := next.snapshot }
  elsewhere : ∀ place, disk.place? file.path ≠ some place → after.at? place = disk.at? place

/-- A file is opened with what the disk holds. -/
theorem open?_spec {path : Text} (h : open? disk path = .ok file) :
    file.path = path ∧ disk.Holds path file.snapshot := by
  unfold open? at h
  cases hread : disk.readSource path with
  | error e => rw [hread] at h; cases h
  | ok text =>
    rw [hread] at h
    obtain rfl := Except.ok.inj h
    exact ⟨rfl, Disk.holds_of_readSource hread⟩

theorem committed_of_replaceText {after : Disk} {text : Text}
    (happly : LineEdit.applyAll edits file.snapshot = .ok text)
    (hread : disk.readSource file.path = .ok file.snapshot)
    (hreplace : disk.replaceText file.path text = .ok after) :
    Committed disk file edits after { file with snapshot := text } := by
  obtain ⟨place, hplace, hafter, hleft, helse⟩ := Disk.replaceFile_spec hreplace
  refine ⟨hread, Disk.holds_of_readSource hread, happly, ?_, rfl, ?_⟩
  · exact Disk.entry?_eq_some_iff.2 ⟨place, hafter, hleft⟩
  · intro other hother
    exact helse other fun h => hother (by rw [hplace, h])

/-- The ways an attempt ends: it fails, it is declined, or it is written. -/
theorem edit_cases (disk : Disk) (file : SourceFile) (edits : List LineEdit) :
    (∃ e, edit disk file edits = .error e) ∨
      (∃ result, result ≠ .written ∧ edit disk file edits = .ok (disk, file, result)) ∨
      ∃ after next, edit disk file edits = .ok (after, next, .written) ∧
        Committed disk file edits after next := by
  unfold edit
  cases happly : LineEdit.applyAll edits file.snapshot with
  | error line => exact .inr (.inl ⟨.missingLine line, nofun, rfl⟩)
  | ok text =>
    cases hread : disk.readSource file.path with
    | error e => exact .inl ⟨e, rfl⟩
    | ok current =>
      by_cases hcurrent : current = file.snapshot
      · subst hcurrent
        simp only [if_pos]
        cases hreplace : disk.replaceText file.path text with
        | error e => exact .inl ⟨e, rfl⟩
        | ok after =>
          have hcommitted := committed_of_replaceText happly hread hreplace
          exact .inr (.inr ⟨after, _, rfl, hcommitted⟩)
      · simp only [if_neg hcurrent]
        exact .inr (.inl ⟨.changedOnDisk, nofun, rfl⟩)

/-- An attempt to edit is a commit, or it is refused and changes nothing. -/
theorem reply_spec (disk : Disk) (file : SourceFile) (edits : List LineEdit) :
    reply disk file edits = .accepted ∧
        Committed disk file edits (edited disk file edits).1 (edited disk file edits).2 ∨
      reply disk file edits ≠ .accepted ∧ edited disk file edits = (disk, file) := by
  unfold reply edited kind
  simp only
  rcases edit_cases disk file edits with
    ⟨e, h⟩ | ⟨result, hresult, h⟩ | ⟨after, next, h, hcommitted⟩
  · rw [h]
    exact .inr ⟨nofun, rfl⟩
  · rw [h]
    simp [hresult]
  · rw [h]
    exact .inl ⟨rfl, hcommitted⟩

theorem committed_of_accepted (h : reply disk file edits = .accepted) :
    Committed disk file edits (edited disk file edits).1 (edited disk file edits).2 := by
  rcases reply_spec disk file edits with ⟨-, hcommitted⟩ | ⟨hreply, -⟩
  · exact hcommitted
  · exact absurd h hreply

theorem edited_of_not_accepted (h : reply disk file edits ≠ .accepted) :
    edited disk file edits = (disk, file) := by
  rcases reply_spec disk file edits with ⟨hreply, -⟩ | ⟨-, hsame⟩
  · exact absurd hreply h
  · exact hsame

theorem edited_path (disk : Disk) (file : SourceFile) (edits : List LineEdit) :
    (edited disk file edits).2.path = file.path := by
  rcases reply_spec disk file edits with ⟨-, hcommitted⟩ | ⟨-, hsame⟩
  · rw [hcommitted.kept]
  · rw [hsame]

theorem not_accepted_of_stale (h : disk.readSource file.path ≠ .ok file.snapshot) :
    reply disk file edits ≠ .accepted :=
  fun haccepted => h (committed_of_accepted haccepted).read

end SourceFile

/-- Source files that were opened on one path, in the order of their opening, and the disk. -/
structure SharedFile where
  disk : Disk
  files : List SourceFile

namespace SharedFile

open SourceFile (edited reply)

/-! ## Steps -/

/-- What somebody does next. -/
inductive Action where
  /-- The path is opened once more. -/
  | opens
  /-- The `n`-th source file is given edits. -/
  | edits (n : Nat) (edits : List LineEdit)
  /-- Somebody else leaves the disk in any other state: writes the file, removes it, or more. -/
  | others (disk : Disk)

def act (path : Text) (shared : SharedFile) : Action → SharedFile
  | .opens =>
    match SourceFile.open? shared.disk path with
    | .error _ => shared
    | .ok file => { shared with files := shared.files ++ [file] }
  | .edits n edits =>
    match shared.files[n]? with
    | none => shared
    | some file =>
      let (disk, next) := edited shared.disk file edits
      { disk, files := shared.files.set n next }
  | .others disk => { shared with disk }

/-- The disk and the source files after some actions, none of which is open before. -/
def run (path : Text) (disk : Disk) (actions : List Action) : SharedFile :=
  actions.foldl (act path) ⟨disk, []⟩

/-- The step in which the `n`-th source file takes the snapshot of `file`: it is opened, or it
commits. -/
inductive Takes (path : Text) (shared : SharedFile) : Action → Nat → SourceFile → Prop
  | opened {file : SourceFile} :
      SourceFile.open? shared.disk path = .ok file →
      Takes path shared .opens shared.files.length file
  | committed {n : Nat} {old : SourceFile} {edits : List LineEdit} :
      shared.files[n]? = some old → reply shared.disk old edits = .accepted →
      Takes path shared (.edits n edits) n (edited shared.disk old edits).2

variable {path : Text} {shared : SharedFile} {action : Action} {n : Nat} {file : SourceFile}

theorem act_opens (h : SourceFile.open? shared.disk path = .ok file) :
    shared.act path .opens = { shared with files := shared.files ++ [file] } := by
  rw [act, h]

theorem act_edits {edits : List LineEdit} (h : shared.files[n]? = some file) :
    shared.act path (.edits n edits) =
      ⟨(edited shared.disk file edits).1,
        shared.files.set n (edited shared.disk file edits).2⟩ := by
  rw [act, h]

theorem act_edits_of_not_accepted {edits : List LineEdit} (h : shared.files[n]? = some file)
    (hreply : reply shared.disk file edits ≠ .accepted) :
    shared.act path (.edits n edits) = shared := by
  rw [act_edits h, SourceFile.edited_of_not_accepted hreply]
  obtain ⟨hn, rfl⟩ := List.getElem?_eq_some_iff.1 h
  rw [List.set_getElem_self]

/-- A step is an opening, edits that are accepted, a change by somebody else, or nothing. -/
theorem act_cases (path : Text) (shared : SharedFile) (action : Action) :
    (∃ file, action = .opens ∧ SourceFile.open? shared.disk path = .ok file ∧
        shared.act path action = ⟨shared.disk, shared.files ++ [file]⟩) ∨
      (∃ n file edits, action = .edits n edits ∧ shared.files[n]? = some file ∧
        reply shared.disk file edits = .accepted ∧
        shared.act path action =
          ⟨(edited shared.disk file edits).1,
            shared.files.set n (edited shared.disk file edits).2⟩) ∨
      (∃ disk, action = .others disk ∧ shared.act path action = ⟨disk, shared.files⟩) ∨
      shared.act path action = shared := by
  cases action with
  | opens =>
    cases h : SourceFile.open? shared.disk path with
    | error e => exact .inr (.inr (.inr (by rw [act, h])))
    | ok file => exact .inl ⟨file, rfl, rfl, by rw [act, h]⟩
  | edits n edits =>
    cases h : shared.files[n]? with
    | none => exact .inr (.inr (.inr (by rw [act, h])))
    | some file =>
      by_cases hreply : reply shared.disk file edits = .accepted
      · exact .inr (.inl ⟨n, file, edits, rfl, h, hreply, act_edits h⟩)
      · exact .inr (.inr (.inr (act_edits_of_not_accepted h hreply)))
  | others disk => exact .inr (.inr (.inl ⟨disk, rfl, rfl⟩))

/-- A source file after a step was there before, or it takes its snapshot in the step. -/
theorem act_files (h : (shared.act path action).files[n]? = some file) :
    shared.files[n]? = some file ∨ Takes path shared action n file := by
  rcases act_cases path shared action with ⟨opened, rfl, hopen, hact⟩ |
    ⟨m, old, edits, rfl, hold, hreply, hact⟩ | ⟨disk, rfl, hact⟩ | hact
  · rw [hact] at h
    rcases Nat.lt_or_ge n shared.files.length with hn | hn
    · rw [List.getElem?_append_left hn] at h
      exact .inl h
    · rw [List.getElem?_append_right hn, List.getElem?_singleton] at h
      obtain ⟨hzero, rfl⟩ := (Option.ite_some_none_eq_some).1 h
      obtain rfl : n = shared.files.length := by omega
      exact .inr (.opened hopen)
  · rw [hact, List.getElem?_set] at h
    split at h
    case isTrue hm =>
      subst hm
      split at h
      · obtain rfl := Option.some.inj h
        exact .inr (.committed hold hreply)
      · cases h
    case isFalse => exact .inl h
  · rw [hact] at h
    exact .inl h
  · rw [hact] at h
    exact .inl h

/-- All source files are of the path. -/
def OfPath (path : Text) (shared : SharedFile) : Prop :=
  ∀ file ∈ shared.files, file.path = path

theorem OfPath.get (h : shared.OfPath path) (hfile : shared.files[n]? = some file) :
    file.path = path :=
  h file (List.mem_of_getElem? hfile)

/-- A snapshot is on disk right after it was taken. -/
theorem Takes.holds (hpath : shared.OfPath path) (h : Takes path shared action n file) :
    file.path = path ∧ (shared.act path action).disk.Holds path file.snapshot := by
  cases h with
  | opened hopen =>
    rw [act_opens hopen]
    exact SourceFile.open?_spec hopen
  | @committed _ old edits hold hreply =>
    obtain rfl : old.path = path := hpath.get hold
    rw [act_edits hold, SourceFile.edited_path]
    exact ⟨rfl, (SourceFile.committed_of_accepted hreply).left⟩

theorem act_ofPath (h : shared.OfPath path) (action : Action) :
    (shared.act path action).OfPath path := by
  intro file hfile
  obtain ⟨n, hn⟩ := List.mem_iff_getElem?.1 hfile
  rcases act_files hn with hthere | htakes
  · exact h.get hthere
  · exact (htakes.holds h).1

/-- As long as the disk does not read as a snapshot, that snapshot stays. -/
theorem act_keeps_stale (hpath : file.path = path)
    (hstale : shared.disk.readSource path ≠ .ok file.snapshot)
    (hfile : shared.files[n]? = some file) : (shared.act path action).files[n]? = some file := by
  have hn : n < shared.files.length := (List.getElem?_eq_some_iff.1 hfile).1
  rcases act_cases path shared action with ⟨opened, rfl, hopen, hact⟩ |
    ⟨m, old, edits, rfl, hold, hreply, hact⟩ | ⟨disk, rfl, hact⟩ | hact
  · rw [hact, List.getElem?_append_left hn, hfile]
  · have hne : m ≠ n := by
      rintro rfl
      obtain rfl := Option.some.inj (hold.symm.trans hfile)
      subst hpath
      exact SourceFile.not_accepted_of_stale hstale hreply
    rw [hact, List.getElem?_set_ne hne, hfile]
  · rw [hact, hfile]
  · rw [hact, hfile]

/-- What a step of a source file takes from the disk is the content of a snapshot. -/
theorem act_discards (hpath : shared.OfPath path) (hown : ∀ disk, action ≠ .others disk)
    {place : Place} (h : (shared.act path action).disk.at? place ≠ shared.disk.at? place) :
    ∃ n file edits, action = .edits n edits ∧ shared.files[n]? = some file ∧
      reply shared.disk file edits = .accepted ∧ shared.disk.place? path = some place ∧
      shared.disk.at? place = some (.file (Utf8.encode file.snapshot)) := by
  rcases act_cases path shared action with ⟨opened, rfl, hopen, hact⟩ |
    ⟨n, file, edits, rfl, hfile, hreply, hact⟩ | ⟨disk, rfl, hact⟩ | hact
  · rw [hact] at h
    exact absurd rfl h
  · have hcommitted := SourceFile.committed_of_accepted hreply
    rw [hact] at h
    have hplace : shared.disk.place? file.path = some place := by
      by_contra hother
      exact h (hcommitted.elsewhere place hother)
    obtain ⟨found, hfound, hat⟩ := Disk.entry?_eq_some_iff.1 hcommitted.found
    obtain rfl := Option.some.inj (hfound.symm.trans hplace)
    rw [hpath.get hfile] at hplace
    exact ⟨n, file, edits, rfl, hfile, hreply, hplace, hat⟩
  · exact absurd rfl (hown disk)
  · rw [hact] at h
    exact absurd rfl h

/-! ## Runs -/

variable {disk : Disk} {past later : List Action}

theorem run_append (past later : List Action) :
    run path disk (past ++ later) = later.foldl (act path) (run path disk past) :=
  List.foldl_append

theorem run_concat (past : List Action) (action : Action) :
    run path disk (past ++ [action]) = (run path disk past).act path action :=
  run_append past [action]

theorem run_ofPath (path : Text) (disk : Disk) (past : List Action) :
    (run path disk past).OfPath path := by
  induction past using List.reverseRecOn with
  | nil => exact nofun
  | append_singleton past action ih =>
    rw [run_concat]
    exact act_ofPath ih action

/-- Every source file took its snapshot in a step of its own. -/
theorem run_taken (h : (run path disk past).files[n]? = some file) :
    ∃ before action after, past = before ++ action :: after ∧
      Takes path (run path disk before) action n file := by
  induction past using List.reverseRecOn with
  | nil => cases h
  | append_singleton past last ih =>
    rw [run_concat] at h
    rcases act_files h with hthere | htakes
    · obtain ⟨before, action, after, rfl, htakes⟩ := ih hthere
      exact ⟨before, action, after ++ [last], by simp, htakes⟩
    · exact ⟨past, last, [], rfl, htakes⟩

/-- While the disk never reads as a snapshot, the source file keeps that snapshot. -/
theorem run_keeps_stale (hfile : (run path disk past).files[n]? = some file)
    (hstale : ∀ seen, seen <+: later →
      (run path disk (past ++ seen)).disk.readSource path ≠ .ok file.snapshot) :
    (run path disk (past ++ later)).files[n]? = some file := by
  have hpath : file.path = path := (run_ofPath path disk past).get hfile
  induction later using List.reverseRecOn with
  | nil => rwa [List.append_nil]
  | append_singleton later action ih =>
    have hbefore : later <+: later ++ [action] := List.prefix_append later [action]
    rw [← List.append_assoc, run_concat]
    exact act_keeps_stale hpath (hstale later hbefore) (ih fun seen hseen =>
      hstale seen (hseen.trans hbefore))

/-- A commit found the bytes of the snapshot and left those of the edited text, on disk and as the
new snapshot. -/
theorem run_accepted (hfile : (run path disk past).files[n]? = some file) {edits : List LineEdit}
    (h : reply (run path disk past).disk file edits = .accepted) :
    ∃ text, LineEdit.applyAll edits file.snapshot = .ok text ∧
      (run path disk past).disk.Holds path file.snapshot ∧
      (edited (run path disk past).disk file edits).1.Holds path text ∧
      (edited (run path disk past).disk file edits).2 = { file with snapshot := text } := by
  obtain rfl : file.path = path := (run_ofPath path disk past).get hfile
  have hcommitted := SourceFile.committed_of_accepted h
  exact ⟨_, hcommitted.applied, hcommitted.found, hcommitted.left, hcommitted.kept⟩

/-- When the file changes, a snapshot of what it was is overtaken. -/
theorem act_overtakes {text : Text} (hheld : shared.disk.Holds path text)
    (hchange : Disk.entry? (shared.act path action).disk path ≠ shared.disk.entry? path) :
    (shared.act path action).disk.readSource path ≠ .ok text :=
  fun hread => hchange ((Disk.holds_of_readSource hread).trans hheld.symm)

/-- What a step of a source file takes from the disk is the content of its snapshot, and it took
that snapshot in a step of its own, when the disk held it. -/
theorem run_discards (hown : ∀ disk, action ≠ .others disk) {place : Place}
    (h : ((run path disk past).act path action).disk.at? place ≠
      (run path disk past).disk.at? place) :
    ∃ n edits file, action = .edits n edits ∧ (run path disk past).files[n]? = some file ∧
      (run path disk past).disk.place? path = some place ∧
      (run path disk past).disk.at? place = some (.file (Utf8.encode file.snapshot)) ∧
      ∃ before taking after, past = before ++ taking :: after ∧
        Takes path (run path disk before) taking n file ∧
        (run path disk (before ++ [taking])).disk.Holds path file.snapshot := by
  obtain ⟨n, file, edits, haction, hfile, -, hplace, hheld⟩ :=
    act_discards (run_ofPath path disk past) hown h
  obtain ⟨before, taking, after, hpast, htakes⟩ := run_taken hfile
  obtain ⟨-, hholds⟩ := htakes.holds (run_ofPath path disk before)
  rw [← run_concat] at hholds
  exact ⟨n, edits, file, haction, hfile, hplace, hheld,
    before, taking, after, hpast, htakes, hholds⟩

/-- No update is lost, in whatever order the path is opened, source files are given edits and
others change the disk. Accepted edits found the bytes of the snapshot and left those of the edited
text, and refused ones changed nothing. When the file changes, every snapshot of what it was is
overtaken, and a source file is refused until the disk reads as its snapshot again. No step of a
source file takes anything from the disk but a snapshot that it has taken itself. -/
theorem run_loses_no_update {path : Text} {disk : Disk} {past : List Action} {here : SharedFile}
    (hrun : run path disk past = here) :
    (∀ (n : Nat) file edits, here.files[n]? = some file →
      (reply here.disk file edits = .accepted →
        ∃ text, LineEdit.applyAll edits file.snapshot = .ok text ∧
          here.disk.Holds path file.snapshot ∧
          (edited here.disk file edits).1.Holds path text ∧
          (edited here.disk file edits).2 = { file with snapshot := text } ∧
          (text ≠ file.snapshot →
            Disk.entry? (edited here.disk file edits).1 path ≠ here.disk.entry? path)) ∧
      (reply here.disk file edits ≠ .accepted → edited here.disk file edits = (here.disk, file))) ∧
    (∀ action (n : Nat) file, (here.act path action).files[n]? = some file →
      here.disk.Holds path file.snapshot →
      Disk.entry? (here.act path action).disk path ≠ here.disk.entry? path →
      (here.act path action).disk.readSource path ≠ .ok file.snapshot) ∧
    (∀ (n : Nat) file later, here.files[n]? = some file →
      (∀ seen, seen <+: later →
        (run path disk (past ++ seen)).disk.readSource path ≠ .ok file.snapshot) →
      (run path disk (past ++ later)).files[n]? = some file ∧
        ∀ edits, reply (run path disk (past ++ later)).disk file edits ≠ .accepted ∧
          (run path disk (past ++ later)).act path (.edits n edits) =
            run path disk (past ++ later)) ∧
    (∀ action place, (∀ disk, action ≠ .others disk) →
      (here.act path action).disk.at? place ≠ here.disk.at? place →
      ∃ (n : Nat) (edits : List LineEdit) (file : SourceFile),
        action = .edits n edits ∧ here.files[n]? = some file ∧
        here.disk.place? path = some place ∧
        here.disk.at? place = some (.file (Utf8.encode file.snapshot)) ∧
        ∃ before taking after, past = before ++ taking :: after ∧
          Takes path (run path disk before) taking n file ∧
          (run path disk (before ++ [taking])).disk.Holds path file.snapshot) := by
  subst hrun
  refine ⟨?_, ?_, ?_, ?_⟩
  · intro n file edits hfile
    refine ⟨fun haccepted => ?_, SourceFile.edited_of_not_accepted⟩
    obtain ⟨text, happly, hfound, hleft, hnext⟩ := run_accepted hfile haccepted
    refine ⟨text, happly, hfound, hleft, hnext, fun hne hsame => hne ?_⟩
    exact hleft.unique (hsame.trans hfound)
  · intro action n file _ hheld hchange
    exact act_overtakes hheld hchange
  · intro n file later hfile hstale
    have hpath : file.path = path := (run_ofPath path disk past).get hfile
    have hthere := run_keeps_stale hfile hstale
    have hrefused : ∀ edits, reply (run path disk (past ++ later)).disk file edits ≠ .accepted := by
      intro edits
      refine SourceFile.not_accepted_of_stale ?_
      rw [hpath]
      exact hstale later (List.prefix_refl later)
    exact ⟨hthere, fun edits => ⟨hrefused edits, act_edits_of_not_accepted hthere (hrefused edits)⟩⟩
  · intro action place hown h
    exact run_discards hown h

/-- Two source files of one path: either may commit at first, but when one has, the other is
overtaken, and its edits are refused. -/
theorem run_loses_no_update_late :
    let disk : Disk := { files := [([['a']], [120])] }
    let past := [.opens, .opens, .edits 0 [⟨0, ['y']⟩]]
    let late : SourceFile := ⟨['a'], "plaintext".toList, ['x']⟩
    reply (run ['a'] disk [.opens, .opens]).disk late [⟨0, ['z']⟩] = .accepted ∧
      (edited (run ['a'] disk [.opens, .opens]).disk late [⟨0, ['z']⟩]).1.Holds ['a'] ['z'] ∧
      (run ['a'] disk past).files[1]? = some late ∧
      (run ['a'] disk past).disk.Holds ['a'] ['y'] ∧
      reply (run ['a'] disk past).disk late [⟨0, ['z']⟩] ≠ .accepted ∧
      (run ['a'] disk past).act ['a'] (.edits 1 [⟨0, ['z']⟩]) = run ['a'] disk past := by
  intro disk past late
  have hfirst : (run ['a'] disk [.opens, .opens]).files[1]? = some late := by decide +kernel
  have haccepted : reply (run ['a'] disk [.opens, .opens]).disk late [⟨0, ['z']⟩] = .accepted := by
    decide +kernel
  obtain ⟨hcommit, -⟩ := run_loses_no_update (rfl : run ['a'] disk [.opens, .opens] = _)
  obtain ⟨text, happly, -, hleft, -⟩ := (hcommit 1 late _ hfirst).1 haccepted
  obtain rfl : ['z'] = text := Except.ok.inj happly
  have hlate : (run ['a'] disk past).files[1]? = some late := by decide +kernel
  have hread : (run ['a'] disk past).disk.readSource ['a'] = .ok ['y'] := by decide +kernel
  obtain ⟨-, -, hrefused, -⟩ := run_loses_no_update (rfl : run ['a'] disk past = _)
  obtain ⟨-, hnothing⟩ := hrefused 1 late [] hlate (by
    intro seen hseen
    rw [List.prefix_nil.1 hseen, List.append_nil, hread]
    nofun)
  rw [List.append_nil] at hnothing
  exact ⟨haccepted, hleft, hlate, Disk.holds_of_readSource hread, hnothing _⟩

end SharedFile

end Repath

/-
A service over any run. It handles saves, processes files at once and reloads its settings, while
others leave the disk in any state between these calls. A call writes only if it is applied, and
then only the file at its path (`process_reports`); so all that a service does to a disk is in its
answers. Its configuration is that of the settings file as it was at the last load that went through
(`run_follows`): a settings file that cannot be used leaves the service as it is.
-/
import Repath.Service
import Repath.Proofs.Cooldown
import Repath.Proofs.Files.SettingsFile
import Repath.Proofs.Files.SharedFile
import Repath.Proofs.Session.Save

namespace Repath

/-! ## Commits to source files -/

namespace SourceFile

variable {pass : Pass} {disk : Disk} {file : SourceFile}

theorem document_of_commit_error {error : CommitError}
    (h : (pass.commit kind (disk, file)).result = .error error) :
    (pass.commit kind (disk, file)).document = (disk, file) := by
  cases hstale : firstStale (kind.line? (disk, file)) pass.replacements [] with
  | some n => rw [Pass.commit_of_stale hstale]
  | none =>
    rw [Pass.commit_of_fresh hstale] at h ⊢
    refine edited_of_not_accepted fun haccepted => ?_
    rw [show (kind.apply pass.edits (disk, file)).2.1 = .accepted from haccepted] at h
    cases h

theorem committed_of_commit_ok (h : (pass.commit kind (disk, file)).result = .ok ()) :
    Committed disk file pass.edits (pass.commit kind (disk, file)).document.1
      (pass.commit kind (disk, file)).document.2 := by
  cases hstale : firstStale (kind.line? (disk, file)) pass.replacements [] with
  | some n => rw [Pass.commit_of_stale hstale] at h; cases h
  | none =>
    rw [Pass.commit_of_fresh hstale] at h ⊢
    refine committed_of_accepted ?_
    show (kind.apply pass.edits (disk, file)).2.1 = .accepted
    cases hreply : (kind.apply pass.edits (disk, file)).2.1 with
    | accepted => rfl
    | declined => rw [hreply] at h; cases h
    | raised chain => rw [hreply] at h; cases h

end SourceFile

/-! ## Calls -/

namespace Service

/-- What a call for a path did, measured by its answer. -/
structure Reports (disk : Disk) (service : Service) (path : Text) (handled : Handled) : Prop where
  /-- An applied call rewrote the file at the path as the rules say, and nothing else. -/
  applied : ∀ pass, handled.answer = .ok (some (.applied pass)) → ∃ text,
    disk.Holds path text ∧ pass = service.session.config.pass text ∧
      handled.disk.Holds path (service.session.config.rewrite text) ∧
      ∀ place, disk.place? path ≠ some place → handled.disk.at? place = disk.at? place
  /-- Any other call left the disk as it was and recorded nothing. -/
  otherwise : (∀ pass, handled.answer ≠ .ok (some (.applied pass))) → handled.disk = disk ∧
    ∀ entry ∈ handled.service.session.cooldown.entries, entry ∈ service.session.cooldown.entries
  config : handled.service.session.config = service.session.config
  exemptions : handled.service.session.exemptions = service.session.exemptions
  settings : handled.service.settings = service.settings

section

variable {disk : Disk} {service : Service} {path : Text} {handled : Handled}

/-- A call that is turned down before the file is processed. -/
theorem reports_of_same (hanswer : ∀ pass, handled.answer ≠ .ok (some (.applied pass)))
    (hdisk : handled.disk = disk) (hservice : handled.service = service) :
    Reports disk service path handled where
  applied pass happlied := absurd happlied (hanswer pass)
  otherwise _ := ⟨hdisk, fun entry hentry => hservice ▸ hentry⟩
  config := by rw [hservice]
  exemptions := by rw [hservice]
  settings := by rw [hservice]

theorem process_reports (disk : Disk) (service : Service) (file : SourceFile) (now : Nat)
    (sink : Sink) : Reports disk service file.path (service.process disk file now sink) := by
  obtain ⟨hconfig, hexemptions⟩ :=
    Session.save_config_exemptions service.session SourceFile.kind (disk, file) now
  suffices h : _ ∧ _ from ⟨h.1, h.2, hconfig, hexemptions, rfl⟩
  unfold process
  cases service.session.save_route SourceFile.kind (disk, file) now with
  | stopped outcome h =>
    rw [Session.save_of_stops h]
    refine ⟨?_, fun _ => ⟨rfl, fun entry hentry => hentry⟩⟩
    -- no save is stopped with this outcome
    rintro pass ⟨⟩
    cases h
  | unchanged h hch =>
    rw [Session.save_of_unchanged h hch]
    exact ⟨nofun, fun _ => ⟨rfl, fun entry hentry => (Cooldown.mem_sweep.1 hentry).1⟩⟩
  | failed error h hch hres =>
    rw [Session.save_of_failed h hch hres, SourceFile.document_of_commit_error hres]
    exact ⟨nofun, fun _ => ⟨rfl, fun entry hentry => (Cooldown.mem_sweep.1 hentry).1⟩⟩
  | applied h hch hres =>
    have hcommitted := SourceFile.committed_of_commit_ok hres
    have hrewrite := Config.applyAll_edits_self h.enabled file.snapshot
    have hnew := Except.ok.inj (hcommitted.applied.symm.trans hrewrite)
    rw [Session.save_of_applied h hch hres]
    refine ⟨?_, fun hno => absurd rfl (hno _)⟩
    rintro pass ⟨⟩
    exact ⟨file.snapshot, hcommitted.found, rfl, hnew ▸ hcommitted.left, hcommitted.elsewhere⟩

end

/-- What a service is asked to do with one file. -/
inductive Call where
  /-- Somebody saved the file, whose language is known. -/
  | save (path language : Text)
  /-- The file is to be processed at once. -/
  | atOnce (path : Text)
deriving DecidableEq, Repr

def Call.path : Call → Text
  | .save path _ => path
  | .atOnce path => path

def handle (disk : Disk) (service : Service) (call : Call) (now : Nat) (sink : Sink) : Handled :=
  match call with
  | .save path language => service.handleSave disk path language now sink
  | .atOnce path => service.runNow disk path now sink

theorem handle_reports (disk : Disk) (service : Service) (call : Call) (now : Nat) (sink : Sink) :
    Reports disk service call.path (service.handle disk call now sink) := by
  -- whatever the call, an open file is one of its path
  have hprocess {path : Text} {file : SourceFile} (hopen : SourceFile.open? disk path = .ok file) :
      Reports disk service path (service.process disk file now sink) := by
    obtain ⟨hpath, -⟩ := SourceFile.open?_spec hopen
    exact hpath ▸ process_reports disk service file now sink
  cases call with
  | save path language =>
    show Reports disk service path (service.handleSave disk path language now sink)
    unfold handleSave
    split
    · exact reports_of_same nofun rfl rfl
    · split
      · exact reports_of_same nofun rfl rfl
      · exact hprocess ‹_›
  | atOnce path =>
    show Reports disk service path (service.runNow disk path now sink)
    unfold runNow
    split
    · exact reports_of_same nofun rfl rfl
    · split
      · exact reports_of_same nofun rfl rfl
      · exact hprocess ‹_›

end Service

/-! ## Runs -/

/-- A disk and the service that works on it, with the disk as it was at the last load of the
settings that went through. -/
structure Served where
  disk : Disk
  service : Service
  loaded : Disk
deriving DecidableEq

namespace Served

open SettingsFile (Reads Unusable)

/-- What happens next. -/
inductive Action where
  | calls (call : Service.Call) (now : Nat) (sink : Sink)
  | reloads
  /-- Somebody else leaves the disk in any other state: writes files, removes them, or more. -/
  | others (disk : Disk)

/-- What comes of a call. -/
def handled (served : Served) (call : Service.Call) (now : Nat) (sink : Sink) : Handled :=
  served.service.handle served.disk call now sink

def act (served : Served) : Action → Served
  | .calls call now sink =>
    { served with
      disk := (served.handled call now sink).disk
      service := (served.handled call now sink).service }
  | .reloads =>
    match served.service.reload served.disk with
    | .error _ => served
    | .ok service => { served with service, loaded := served.disk }
  | .others disk => { served with disk }

/-- A service that has just been started on a disk. -/
def start? (disk : Disk) (settings : Text) : Except Failure Served :=
  (Service.start disk settings).map fun service => ⟨disk, service, disk⟩

/-- What some actions make of a service. -/
def run (first : Served) (actions : List Action) : Served :=
  actions.foldl act first

variable {disk : Disk} {settings : Text} {served first : Served}

/-- The service follows the settings file: it has the configuration that was in the file at the last
load, with the exemptions of its rules. -/
structure Follows (settings : Text) (served : Served) : Prop where
  named : served.service.settings = settings
  loaded : SettingsFile.load served.loaded settings = .ok served.service.session.config
  exemptions : served.service.session.exemptions =
    Exemptions.ofRules served.service.session.config.rules

theorem follows_of_start? (h : start? disk settings = .ok first) : first.Follows settings := by
  unfold start? Service.start at h
  cases hload : SettingsFile.load disk settings with
  | error failure => rw [hload] at h; cases h
  | ok config =>
    rw [hload] at h
    obtain rfl := Except.ok.inj h
    exact ⟨rfl, hload, rfl⟩

/-- A reload takes over the configuration and goes on with the cooldown, or it fails and changes
nothing. -/
theorem act_reloads (served : Served) :
    (∃ failure, SettingsFile.load served.disk served.service.settings = .error failure ∧
        served.service.reload served.disk = .error failure ∧ served.act .reloads = served) ∨
      ∃ config, SettingsFile.load served.disk served.service.settings = .ok config ∧
        served.service.reload served.disk =
          .ok { served.service with session := served.service.session.refresh config } ∧
        served.act .reloads =
          { disk := served.disk
            service := { served.service with session := served.service.session.refresh config }
            loaded := served.disk } := by
  unfold act Service.reload
  cases hload : SettingsFile.load served.disk served.service.settings with
  | error failure => exact .inl ⟨failure, rfl, rfl, rfl⟩
  | ok config => exact .inr ⟨config, rfl, rfl, rfl⟩

theorem act_follows (h : served.Follows settings) (action : Action) :
    (served.act action).Follows settings := by
  cases action with
  | calls call now sink =>
    have hreports := Service.handle_reports served.disk served.service call now sink
    refine ⟨hreports.settings.trans h.named, ?_, ?_⟩
    · exact h.loaded.trans (congrArg Except.ok hreports.config.symm)
    · have hrules := congrArg (Exemptions.ofRules ·.rules) hreports.config
      exact hreports.exemptions.trans (h.exemptions.trans hrules.symm)
  | reloads =>
    rcases act_reloads served with ⟨failure, -, -, hact⟩ | ⟨config, hload, -, hact⟩
    · rwa [hact]
    · rw [hact]
      exact ⟨h.named, h.named ▸ hload, rfl⟩
  | others disk => exact ⟨h.named, h.loaded, h.exemptions⟩

theorem run_follows (h : first.Follows settings) (actions : List Action) :
    (first.run actions).Follows settings := by
  unfold run
  induction actions generalizing first with
  | nil => exact h
  | cons action actions ih => exact ih (act_follows h action)

/-- A service in any run. A call changes at most the file at its path, and only if it is applied.
The configuration is that of the settings file at the last load that went through. A reload leaves
the disk, and where the settings file cannot be used it leaves everything. -/
theorem run_reports (h : start? disk settings = .ok first) (actions : List Action) :
    let here := first.run actions
    let session := here.service.session
    (∀ call now sink,
      Service.Reports here.disk here.service call.path (here.handled call now sink)) ∧
    ((∃ fields, Reads here.loaded settings (.object fields) ∧
        Settings.config? (.object fields) = .ok session.config) ∧
      session.exemptions = Exemptions.ofRules session.config.rules) ∧
    (here.act .reloads).disk = here.disk ∧
    (Unusable here.disk settings →
      (∃ failure, here.service.reload here.disk = .error failure) ∧ here.act .reloads = here) ∧
    (¬ Unusable here.disk settings →
      (∃ service, here.service.reload here.disk = .ok service ∧
        here.act .reloads = ⟨here.disk, service, here.disk⟩) ∧
      (here.act .reloads).service.session.cooldown = session.cooldown) := by
  intro here session
  have hfollows : here.Follows settings := run_follows (follows_of_start? h) actions
  have hunusable : (∃ failure, SettingsFile.load here.disk here.service.settings = .error failure) ↔
      Unusable here.disk settings := hfollows.named ▸ SettingsFile.exists_load_eq_error_iff
  refine ⟨fun call now sink => Service.handle_reports here.disk here.service call now sink,
    ⟨SettingsFile.load_eq_ok_iff.1 hfollows.loaded, hfollows.exemptions⟩, ?_⟩
  rcases act_reloads here with ⟨failure, hload, hreload, hact⟩ | ⟨config, hload, hreload, hact⟩
  · refine ⟨by rw [hact], fun _ => ⟨⟨failure, hreload⟩, hact⟩, fun husable => ?_⟩
    exact absurd (hunusable.1 ⟨failure, hload⟩) husable
  · refine ⟨by rw [hact], fun hbad => ?_, fun _ => ⟨⟨_, hreload, hact⟩, by rw [hact]; rfl⟩⟩
    obtain ⟨failure, hfailure⟩ := hunusable.2 hbad
    cases hfailure.symm.trans hload

/-- Somebody overwrites the settings with bytes that are no text and brings in a source file. The
reload fails, and a call rewrites what it finds by the rules from before. -/
theorem run_reports_overwritten :
    let config : Config := { rules := [⟨['r'], ['a'], ['b'], [], true⟩] }
    let settings := (Json.object (Settings.writeFields config.rules [])).pretty
    let first : Served :=
      let disk : Disk := { files := [([['s']], Utf8.encode settings)] }
      ⟨disk, ⟨Session.start config, ['s']⟩, disk⟩
    let path : Text := "x.go".toList
    let later : Disk := { files := [([['s']], [0]), ([path], Utf8.encode "\"a\"".toList)] }
    let here := first.run [.others later]
    let handled := here.handled (.atOnce path) 7 .silent
    start? first.disk ['s'] = .ok first ∧ Unusable later ['s'] ∧ here.act .reloads = here ∧
      handled.answer = .ok (some (.applied (config.pass "\"a\"".toList))) ∧
      handled.disk.Holds path "\"b\"".toList ∧
      handled.disk.at? [['s']] = some (.file [0]) := by
  intro config settings first path later here handled
  have hstart : start? first.disk ['s'] = .ok first := by decide +kernel
  have hbad : Unusable later ['s'] := .inr ⟨[0], rfl, .inr (.inl rfl)⟩
  have hanswer : handled.answer = .ok (some (.applied (config.pass "\"a\"".toList))) := by
    decide +kernel
  obtain ⟨hcalls, -, -, hfails, -⟩ := run_reports hstart [.others later]
  obtain ⟨text, hfound, -, hleft, helse⟩ := (hcalls (.atOnce path) 7 .silent).applied _ hanswer
  obtain rfl := Disk.Holds.unique hfound (show later.Holds path "\"a\"".toList by rfl)
  have hrewrite : here.service.session.config.rewrite "\"a\"".toList = "\"b\"".toList := by
    decide +kernel
  refine ⟨hstart, hbad, (hfails hbad).2, hanswer, ?_, ?_⟩
  · exact hrewrite ▸ hleft
  · exact helse [['s']] (by decide +kernel)

end Served

end Repath

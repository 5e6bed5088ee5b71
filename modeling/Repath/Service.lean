/-
The service: a session together with the settings file it follows. It handles the saves of source
files on a disk; a reload that fails leaves the session as it is.
-/
import Repath.Files.SettingsFile
import Repath.Files.SourceFile
import Repath.Session

namespace Repath

structure Service where
  session : Session
  settings : Text
deriving DecidableEq, Repr

/-- What became of a save on a disk. -/
structure Handled where
  disk : Disk
  service : Service
  /-- Nothing if the file is in another language. -/
  answer : Except Failure (Option Outcome)
  notices : List Notice := []
  events : List Event := []

namespace Service

/-- Loads the settings and starts a session. -/
def start (disk : Disk) (settings : Text) : Except Failure Service :=
  (SettingsFile.load disk settings).map fun config => ⟨Session.start config, settings⟩

/-- What starting reports. -/
def startEvents (disk : Disk) (settings : Text) : List Event :=
  SettingsFile.loadEvents disk settings ++
    match SettingsFile.load disk settings with
    | .error _ => []
    | .ok config => Session.patternEvents config

/-- Reads the settings again. -/
def reload (disk : Disk) (service : Service) : Except Failure Service :=
  (SettingsFile.load disk service.settings).map fun config =>
    { service with session := service.session.refresh config }

/-- What a reload reports. -/
def reloadEvents (disk : Disk) (service : Service) : List Event :=
  SettingsFile.loadEvents disk service.settings ++
    match SettingsFile.load disk service.settings with
    | .error _ => []
    | .ok config => Session.refreshEvents config

/-- Runs an open file through the session. -/
def process (disk : Disk) (service : Service) (file : SourceFile) (now : Nat) (sink : Sink) :
    Handled :=
  let saved := service.session.save SourceFile.kind (disk, file) now
  { disk := saved.document.1
    service := { service with session := saved.session }
    answer := match saved.answer with
      | .error e => .error ⟨[], .commit e⟩
      | .ok outcome => .ok (some outcome)
    notices := saved.notices
    events := saved.events sink file.path }

/-- Handles the save of a file whose language is known; only one language is processed. -/
def handleSave (disk : Disk) (service : Service) (path language : Text) (now : Nat)
    (sink : Sink) : Handled :=
  if language != PathName.goLanguage then
    { disk, service, answer := .ok none, events := [.otherLanguage path language] }
  else
    match SourceFile.open? disk path with
    | .error e => { disk, service, answer := .error ⟨[.openFile path], .file e⟩ }
    | .ok file => process disk service file now sink

/-- Processes one file at once. -/
def runNow (disk : Disk) (service : Service) (path : Text) (now : Nat) (sink : Sink) : Handled :=
  match SourceFile.open? disk path with
  | .error e => { disk, service, answer := .error ⟨[.openFile path], .file e⟩ }
  | .ok file =>
    if file.language != PathName.goLanguage then
      { disk, service, answer := .error ⟨[], .notGoFile path⟩, events := [.notGoDocument path] }
    else process disk service file now sink

end Service

end Repath

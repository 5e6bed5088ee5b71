/-
The settings file. A file that is missing or blank counts as the empty document. Loading reads it
leniently, and saving rules writes the whole document back in its pretty form, with all keys but
that of the rules as they were read.
-/
import Repath.Failure
import Repath.Files.Reading
import Repath.Json.Printer
import Repath.Json.Reader

namespace Repath.SettingsFile

/-- The settings file of a working folder. -/
def defaultPath : Text := ".vscode/settings.json".toList

/-- Reads the document. -/
def document? (disk : Disk) (path : Text) : Except Failure Json :=
  match disk.readText path with
  | .error (.notFound _) => .ok (.object [])
  | .error e => .error ⟨[.readSettings path], .file e⟩
  | .ok text =>
    if text.isBlank then .ok (.object []) else
    match Json.read? text with
    | none => .error ⟨[.parseSettings path], .json⟩
    | some document => .ok document

/-- Reads the section of the document. -/
def section? (disk : Disk) (path : Text) : Except Failure Json :=
  match document? disk path with
  | .error failure => .error failure
  | .ok document =>
    match Settings.section? document with
    | .error e => .error ⟨[.useSettings path], .settings e⟩
    | .ok found => .ok found.2

/-- Loads the configuration. -/
def load (disk : Disk) (path : Text) : Except Failure Config :=
  (section? disk path).map Config.ofSection

/-- What reading the rules of a section reports. -/
def ruleEvents (part : Json) : List Event :=
  ((part.get? Config.rulesKey).map Event.ofRules).getD []

/-- What loading reports. -/
def loadEvents (disk : Disk) (path : Text) : List Event :=
  match section? disk path with
  | .error _ => []
  | .ok part =>
    let config := Config.ofSection part
    ruleEvents part ++ [.settingsLoaded path config.enabled config.rules.length]

/-- The document with rules in it, as a text. -/
def textWithRules (disk : Disk) (path : Text) (rules : List Rule) : Except Failure Text :=
  match document? disk path with
  | .error failure => .error failure
  | .ok document =>
    match Settings.writeRules rules document with
    | .error e => .error ⟨[], .settings e⟩
    | .ok document => .ok (document.pretty ++ ['\n'])

/-- Makes the folder of the settings file; gives the disk afterwards. -/
def makeFolder (disk : Disk) (path : Text) : Disk × Except Failure Unit :=
  match PathName.parent? path with
  | none => (disk, .ok ())
  | some folder =>
    let (made, result) := disk.makeFolders folder
    (made, result.mapError fun e => ⟨[.createFolder folder], .file e⟩)

/-- Saves the rules among submitted entries; gives the disk afterwards. -/
def saveRules (disk : Disk) (path : Text) (raw : Json) : Disk × Except Failure Settings.Update :=
  let update := Settings.prepare raw
  match textWithRules disk path update.kept with
  | .error failure => (disk, .error failure)
  | .ok text =>
    match makeFolder disk path with
    | (made, .error failure) => (made, .error failure)
    | (ready, .ok ()) =>
      match ready.replaceText path text with
      | .error e => (ready, .error ⟨[.writeSettings path], .file e⟩)
      | .ok written => (written, .ok update)

/-- What saving reports. -/
def saveEvents (path : Text) (raw : Json) : Except Failure Settings.Update → List Event
  | .error _ => submitted raw
  | .ok update => submitted raw ++ [.rulesSaved path update.kept.length]
where
  submitted (raw : Json) : List Event :=
    let dropped := (Settings.prepare raw).dropped
    Event.ofRules raw ++ if dropped = 0 then [] else [.entriesDropped dropped]

end Repath.SettingsFile

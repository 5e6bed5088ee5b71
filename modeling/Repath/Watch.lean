/-
Watching a disk for saves. A watch covers some folders with all that is in them, some files by
themselves, and the folder of the settings file alone. What it reports are the changes of the
journal since it last looked that count as saves, each path once: a burst of writes to one path is
one save. The settings file is reported as itself; every other path has to pass the filter. What is
removed is watched no more.
-/
import Repath.Files.Disk
import Repath.Glob.Bytes.Expression
import Repath.Log

namespace Repath

/-! ## Filters -/

/-- Which paths are worth a report. -/
structure WatchFilter where
  /-- The globs of wanted paths; without them every path is wanted. -/
  wanted : Option (List Glob.ByteGlob)
  /-- The globs of unwanted paths, which win over the wanted ones. -/
  unwanted : List Glob.ByteGlob

namespace WatchFilter

/-- The globs among patterns; those that are refused are left out. -/
def readable (patterns : List Text) : List Glob.ByteGlob :=
  patterns.filterMap fun pattern => (Glob.ByteGlob.read pattern).toOption

/-- The globs that are used of patterns: those that can be read, or none if they cannot be compiled
together. -/
def globs (patterns : List Text) : List Glob.ByteGlob :=
  let globs := readable patterns
  if (Glob.globsFault? globs).isNone then globs else []

/-- The filter of wanted and unwanted patterns. Wanted patterns without a glob that is used want
nothing, while no patterns at all want everything. -/
def ofPatterns (wanted unwanted : List Text) : WatchFilter where
  wanted := if wanted.isEmpty then none else some (globs wanted)
  unwanted := globs unwanted

/-- Go sources. -/
def defaultWanted : List Text := ["**/*.go".toList]

/-- What version control and editors leave beside sources. -/
def defaultUnwanted : List Text :=
  ["**/.git/**".toList, "**/*.tmp".toList, "**/*~".toList]

/-- Whether a path passes, by its bytes. -/
def acceptsBytes (filter : WatchFilter) (path : Bytes) : Bool :=
  !filter.unwanted.any (·.isMatch path) &&
    match filter.wanted with
    | none => true
    | some globs => globs.any (·.isMatch path)

def accepts (filter : WatchFilter) (path : Text) : Bool :=
  filter.acceptsBytes (Utf8.encode path)

/-- What reading patterns reports: those that are refused, and why the others are not used. -/
def events (patterns : List Text) : List Event :=
  let skipped := patterns.filterMap fun pattern =>
    match Glob.ByteGlob.read pattern with
    | .ok _ => none
    | .error fault => some (.globSkipped pattern (fault.message pattern))
  match Glob.globsFault? (readable patterns) with
  | none => skipped
  | some fault => skipped ++ [.globsUnused fault.message]

end WatchFilter

/-! ## Watches -/

/-- What a watch reports. -/
inductive WatchReport where
  | saved (path language : Text)
  | settingsChanged
deriving DecidableEq, Repr

structure Watch where
  filter : WatchFilter
  /-- The folders that are watched with all that is in them. -/
  folders : List Place
  /-- The files that are watched by themselves, each by the place it had first and the one it has
  now. -/
  files : List (Place × Place)
  /-- The place of the settings file, whether or not it is there. -/
  settings : Option Place
  /-- The folder that is watched for the settings file alone. -/
  settingsFolder : Option Place
  /-- How many changes of the journal it has looked at. -/
  seen : Nat
  running : Bool := true

namespace Watch

/-- The place of a file that may be missing, if the folder it is in is there. -/
def filePlace? (disk : Disk) (path : Text) : Option Place :=
  if (disk.entry? path).isSome then disk.place? path else
  match PathName.fileName? path, PathName.parent? path with
  | some name, some folder =>
    let folder := if folder.isEmpty then PathName.here else folder
    if disk.entry? folder = some .folder then (disk.place? folder).map (· ++ [name]) else none
  | _, _ => none

/-- The folder of the settings file, if the file is not inside a root. -/
def settingsFolder? (roots : List Place) (settings : Option Place) : Option Place :=
  match settings with
  | none => none
  | some place => if roots.any (·.isPrefixOf place) then none else some place.dropLast

/-- Starts a watch; every root has to be there. A settings file counts if its folder is there. -/
def start (disk : Disk) (filter : WatchFilter) (roots : List Text) (settings : Option Text) :
    Except FileError Watch :=
  match roots.find? fun root => (disk.entry? root).isNone with
  | some root => .error (.notFound root)
  | none =>
    let places := roots.filterMap disk.place?
    let settings := settings.bind (filePlace? disk)
    .ok
      { filter
        folders := places.filter disk.isFolder
        files := (places.filter (!disk.isFolder ·)).map fun place => (place, place)
        settings
        settingsFolder := settingsFolder? places settings
        seen := disk.journal.length }

/-- What starting a watch reports, as far as it comes: the roots up to the first missing one. -/
def startEvents (disk : Disk) (wanted unwanted roots : List Text) (settings : Option Text) :
    List Event :=
  let found := (roots.takeWhile fun root => (disk.entry? root).isSome).filterMap disk.place?
  let folder := if found.length < roots.length then none
    else settingsFolder? found (settings.bind (filePlace? disk))
  WatchFilter.events wanted ++ WatchFilter.events unwanted ++
    found.map (fun root => .watching (Disk.nameOf root)) ++
    folder.toList.map fun folder => .watchingSettings (Disk.nameOf folder)

/-- Whether a place is in a folder that is watched. -/
def covers (watch : Watch) (place : Place) : Bool :=
  watch.folders.any (·.isPrefixOf place) ||
    (!place.isEmpty && watch.settingsFolder == some place.dropLast)

/-- The first places of the watched files that are now at a place. -/
def filesAt (watch : Watch) (place : Place) : List Place :=
  (watch.files.filter fun file => file.2 == place).map (·.1)

/-- The places that a change counts as a save of. Attributes and removals do not count, and a file
that is watched by itself does not see what takes its place. -/
def saved (watch : Watch) (change : Change) : List Place :=
  let covered := if watch.covers change.place then [change.place] else []
  match change.kind with
  | .written => covered ++ watch.filesAt change.place
  | .renamed => covered ++ watch.filesAt change.place
  | .arrived _ => covered
  | .touched => []
  | .removed => []

/-- The watch without what is lost by a change: what was removed or had its place taken is watched
no more, even if it is made again. A file that moves away from a watched folder is lost as well;
else it is followed. -/
def keep (watch : Watch) (change : Change) : Watch :=
  let place := change.place
  match change.kind with
  | .removed =>
    { watch with
      folders := watch.folders.filter fun folder => !place.isPrefixOf folder
      files := watch.files.filter fun file => !place.isPrefixOf file.2
      settingsFolder := watch.settingsFolder.filter fun folder => !place.isPrefixOf folder }
  | .arrived origin =>
    let files := watch.files.filter fun file => file.2 != place
    match origin with
    | none => { watch with files }
    | some origin =>
      if watch.covers origin then
        { watch with files := files.filter fun file => file.2 != origin }
      else
        { watch with
          files := files.map fun (first, now) => (first, if now = origin then place else now) }
  | _ => watch

/-- What is reported of a place, if anything. -/
def report? (watch : Watch) (place : Place) : Option WatchReport :=
  if watch.settings = some place then some .settingsChanged
  else
    let path := Disk.nameOf place
    if watch.filter.accepts path then some (.saved path (PathName.language path)) else none

/-- Looks at a change; `saves` holds the places saved so far. -/
def look (state : List Place × Watch) (change : Change) : List Place × Watch :=
  let (saves, watch) := state
  (saves ++ watch.saved change, watch.keep change)

/-- The places saved since the watch last looked, and the watch after looking. -/
def observe (disk : Disk) (watch : Watch) : List Place × Watch :=
  let (saves, watch) := (disk.journal.drop watch.seen).foldl look ([], watch)
  (saves, { watch with seen := disk.journal.length })

/-- The reports of the changes since the watch last looked, in the order of the first change of
each path. A watch that was stopped reports nothing. -/
def reports (disk : Disk) (watch : Watch) : List WatchReport :=
  if watch.running then (watch.observe disk).1.eraseDups.filterMap watch.report? else []

/-- The watch after looking. -/
def catchUp (disk : Disk) (watch : Watch) : Watch :=
  (watch.observe disk).2

def stop (watch : Watch) : Watch :=
  { watch with running := false }

end Watch

end Repath

/-
What the program says about its work, event by event. Each event has a level, a message, and
fields with the values that are not part of the message; lines are counted from one.
-/
import Repath.Rule

namespace Repath

inductive Level where
  | debug
  | info
  | warn
  | error
deriving DecidableEq, Repr

def Level.name : Level → Text
  | debug => "DEBUG".toList
  | info => "INFO".toList
  | warn => "WARN".toList
  | error => "ERROR".toList

/-- Something the program reports while it works. Errors come as their messages. -/
inductive Event where
  -- reading settings
  | rulesNotArray
  | entryRejected (index : Nat) (reason : Rejection)
  | patternRefused (rule error : Text)
  | settingsLoaded (path : Text) (enabled : Bool) (rules : Nat)
  | entriesDropped (count : Nat)
  | rulesSaved (path : Text) (count : Nat)
  -- a session
  | refreshed (enabled : Bool) (rules exemptions : Nat)
  | engineDisabled (path : Text)
  | recentlyProcessed (path : Text)
  | pathExempt (path rule : Text)
  | expiredRemoved (count : Nat)
  | ruleMatched (rule : Text) (line : Nat)
  | ruleFailed (rule : Text) (line : Nat) (error : Text)
  | nothingToReplace (path : Text)
  | commitFailed (path error : Text)
  | replacementsApplied (path : Text) (count : Nat)
  -- notices
  | appliedNotice (path : Text) (count : Nat)
  | skippedNotice (path rule : Text) (line : Nat) (error : Text)
  | failedOnConsole (path rule : Text) (line : Nat) (error : Text)
  -- files
  | missingLine (path : Text) (line : Nat)
  | changedOnDisk (path : Text)
  | editCommitted (path : Text) (lines : Nat)
  -- following saves
  | otherLanguage (path language : Text)
  | notGoDocument (path : Text)
  | globSkipped (pattern error : Text)
  | globsUnused (error : Text)
  | watching (root : Text)
  | watchingSettings (folder : Text)
  | started (settings : Text)
  | saveHandled (path outcome : Text)
  | saveFailed (path error : Text)
  | reloadFailed (error : Text)
deriving DecidableEq, Repr

namespace Event

def level : Event → Level
  | rulesNotArray | entryRejected .. | patternRefused .. | entriesDropped .. | skippedNotice ..
  | failedOnConsole .. | missingLine .. | changedOnDisk .. | notGoDocument .. | globSkipped ..
  | globsUnused .. => .warn
  | settingsLoaded .. | rulesSaved .. | refreshed .. | replacementsApplied .. | appliedNotice ..
  | watching .. | started .. => .info
  | ruleFailed .. | commitFailed .. | saveFailed .. | reloadFailed .. => .error
  | engineDisabled .. | recentlyProcessed .. | pathExempt .. | expiredRemoved .. | ruleMatched ..
  | nothingToReplace .. | editCommitted .. | otherLanguage .. | watchingSettings ..
  | saveHandled .. => .debug

def message : Event → Text
  | rulesNotArray => "rules setting is not an array; ignoring it".toList
  | entryRejected _ .notObject => "rule is not an object; skipped".toList
  | entryRejected _ .noName => "rule has no valid name; skipped".toList
  | entryRejected _ (.noSource _) => "rule has no valid source string; skipped".toList
  | entryRejected _ (.noTarget _) => "rule has no valid target string; skipped".toList
  | patternRefused .. => "exemption pattern rejected".toList
  | settingsLoaded .. => "Loaded settings".toList
  | entriesDropped .. => "Dropped malformed rules before saving".toList
  | rulesSaved .. => "Saved rules".toList
  | refreshed .. => "configuration refreshed".toList
  | engineDisabled .. => "engine disabled; skipped".toList
  | recentlyProcessed .. => "processed recently; skipped".toList
  | pathExempt .. => "path exempt; skipped".toList
  | expiredRemoved .. => "expired cooldown entries removed".toList
  | ruleMatched .. => "rule matched".toList
  | ruleFailed .. => "rule failed".toList
  | nothingToReplace .. => "no replacements needed".toList
  | commitFailed .. => "failed to commit replacements".toList
  | replacementsApplied .. => "replacements applied".toList
  | appliedNotice .. => "applied import replacements".toList
  | skippedNotice .. => "rule skipped".toList
  | failedOnConsole _ _ _ error => "Rule failed: ".toList ++ error
  | missingLine .. => "Edit addresses a missing line".toList
  | changedOnDisk .. => "File changed on disk, edit skipped".toList
  | editCommitted .. => "Committed edit".toList
  | otherLanguage .. => "Not a Go file".toList
  | notGoDocument .. => "Current document is not a Go file".toList
  | globSkipped .. => "Skipping invalid watch glob".toList
  | globsUnused .. => "Failed to build glob set".toList
  | watching .. => "Watching".toList
  | watchingSettings .. => "Watching settings directory".toList
  | started .. => "Host started".toList
  | saveHandled .. => "Save handled".toList
  | saveFailed _ error => error
  | reloadFailed error => "Settings reload failed, keeping previous rules: ".toList ++ error

def textField (key : String) (value : Text) : Text × Json :=
  (key.toList, .string value)

def natField (key : String) (value : Nat) : Text × Json :=
  (key.toList, .nat value)

def boolField (key : String) (value : Bool) : Text × Json :=
  (key.toList, .bool value)

/-- The values of an event, in the order in which they are told. -/
def fields : Event → Json.Fields
  | rulesNotArray => []
  | entryRejected index .notObject => [natField "index" index]
  | entryRejected index .noName => [natField "index" index]
  | entryRejected index (.noSource name) => [natField "index" index, textField "rule" name]
  | entryRejected index (.noTarget name) => [natField "index" index, textField "rule" name]
  | patternRefused rule error => [textField "rule" rule, textField "error" error]
  | settingsLoaded path enabled rules =>
    [textField "path" path, boolField "enabled" enabled, natField "rules" rules]
  | entriesDropped count => [natField "dropped" count]
  | rulesSaved path count => [textField "path" path, natField "saved" count]
  | refreshed enabled rules exemptions =>
    [boolField "enabled" enabled, natField "rules" rules, natField "exemptions" exemptions]
  | engineDisabled path => [textField "path" path]
  | recentlyProcessed path => [textField "path" path]
  | pathExempt path rule => [textField "path" path, textField "rule" rule]
  | expiredRemoved count => [natField "swept" count]
  | ruleMatched rule line => [textField "rule" rule, natField "line" (Text.lineNumber line)]
  | ruleFailed rule line error =>
    [textField "rule" rule, natField "line" (Text.lineNumber line), textField "error" error]
  | nothingToReplace path => [textField "path" path]
  | commitFailed path error => [textField "path" path, textField "error" error]
  | replacementsApplied path count => [textField "path" path, natField "replacements" count]
  | appliedNotice path count => [textField "path" path, natField "replacements" count]
  | skippedNotice path rule line error =>
    [textField "path" path, textField "rule" rule, natField "line" (Text.lineNumber line),
      textField "error" error]
  | failedOnConsole path rule line _ =>
    [textField "path" path, textField "rule" rule, natField "line" (Text.lineNumber line)]
  | missingLine path line => [textField "path" path, natField "line" line]
  | changedOnDisk path => [textField "path" path]
  | editCommitted path lines => [textField "path" path, natField "lines" lines]
  | otherLanguage path language => [textField "path" path, textField "language" language]
  | notGoDocument path => [textField "path" path]
  | globSkipped pattern error => [textField "pattern" pattern, textField "error" error]
  | globsUnused error => [textField "error" error]
  | watching root => [textField "root" root]
  | watchingSettings folder => [textField "dir" folder]
  | started settings => [textField "settings" settings]
  | saveHandled path outcome => [textField "path" path, textField "outcome" outcome]
  | saveFailed path _ => [textField "path" path]
  | reloadFailed _ => []

/-- The event on one line: its level, the message, then the fields. -/
def line (event : Event) : Text :=
  event.level.name ++ ' ' :: event.message ++ event.fields.flatMap fun (key, value) =>
    ' ' :: (key ++ '=' :: (match value with
      | .string t => t
      | .number (.whole n) => Text.ofNat n.toNat
      | .bool true => "true".toList
      | _ => "false".toList))

/-- What reading rules reports: an entry that is no rule, or a value that is no array; a missing
value passes in silence. -/
def ofRules (raw : Json) : List Event :=
  match raw with
  | .array _ => (Rule.rejections raw).map fun (index, reason) => entryRejected index reason
  | .null => []
  | _ => [rulesNotArray]

end Event

end Repath

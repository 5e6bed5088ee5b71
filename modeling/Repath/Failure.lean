/-
Failures of what a user asks for: the tasks that were under way, outermost first, and the cause.
-/
import Repath.Files.Disk
import Repath.LiveDocument

namespace Repath

/-- What was being done. -/
inductive Task where
  | readSettings (path : Text)
  | parseSettings (path : Text)
  | useSettings (path : Text)
  | createFolder (path : Text)
  | writeSettings (path : Text)
  | openFile (path : Text)
  | readRules
deriving DecidableEq, Repr

def Task.message : Task → Text
  | .readSettings path => "Failed to read settings: ".toList ++ path
  | .parseSettings path => "Failed to parse settings JSON: ".toList ++ path
  | .useSettings path => "Invalid settings: ".toList ++ path
  | .createFolder path => "Failed to create ".toList ++ path
  | .writeSettings path => "Failed to write settings: ".toList ++ path
  | .openFile path => "Failed to open ".toList ++ path
  | .readRules => "Rules must be valid JSON".toList

/-- What went wrong at the bottom. -/
inductive Cause where
  | commit (error : CommitError)
  | settings (error : SettingsError)
  | file (error : FileError)
  | json
  | notGoFile (path : Text)
  | ruleRejected (reason : Text)
  | rulesNotArray
deriving DecidableEq, Repr

def Cause.message : Cause → Text
  | .commit error => error.message
  | .settings error => error.message
  | .file error => error.message
  | .json => "invalid JSON".toList
  | .notGoFile path => "not a Go file: ".toList ++ path
  | .ruleRejected reason => "rule failed: ".toList ++ reason
  | .rulesNotArray => "Rules must be a JSON array".toList

structure Failure where
  tasks : List Task := []
  cause : Cause
deriving DecidableEq, Repr

namespace Failure

/-- The messages from the outermost task to the cause. -/
def chain (failure : Failure) : List Text :=
  failure.tasks.map Task.message ++ [failure.cause.message]

/-- The whole chain in one line. -/
def message (failure : Failure) : Text :=
  Text.chain failure.chain

/-- The outermost message. -/
def headline (failure : Failure) : Text :=
  failure.chain.headD []

/-- A failure during a task. -/
def during (task : Task) (failure : Failure) : Failure :=
  { failure with tasks := task :: failure.tasks }

end Failure

end Repath

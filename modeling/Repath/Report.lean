/-
The report of a pass for a reader: the replacements in the order they were made, the difference of
the lines they changed, and the rules that failed. Lines are counted from one. The difference is
between the lines as they were scanned and the lines as the edits leave them.
-/
import Repath.Edit
import Repath.Diff.Unified

namespace Repath

namespace Replacement

/-- One line of the report, without the White_Space around the two texts. -/
def reportLine (r : Replacement) : Text :=
  'L' :: (Text.ofNat (Text.lineNumber r.line) ++ " [".toList ++ r.rule ++ "]: \"".toList ++
    r.before.trim ++ "\" -> \"".toList ++ r.after.trim ++ "\"\n".toList)

end Replacement

namespace RuleFailure

def reportLine (f : RuleFailure) : Text :=
  'L' :: (Text.ofNat (Text.lineNumber f.line) ++ " [".toList ++ f.rule ++ "]: ".toList ++
    f.error.message ++ ['\n'])

end RuleFailure

namespace Pass

/-- The changed lines as they were scanned, each with a line feed. -/
def textBefore (pass : Pass) : Text :=
  pass.lineChanges.flatMap fun change => change.before ++ ['\n']

/-- The changed lines as the edits leave them, each with a line feed. -/
def textAfter (pass : Pass) : Text :=
  pass.lineChanges.flatMap fun change => change.after ++ ['\n']

/-- The part of the report about changes. -/
def changesText (pass : Pass) : Text :=
  if pass.hasChanges then
    "\n// Changes:\n".toList ++ pass.replacements.flatMap Replacement.reportLine ++
      "\n// Diff:\n".toList ++ Diff.unified pass.textBefore pass.textAfter
  else "[No matches found]\n".toList

/-- The part of the report about failures. -/
def failuresText (pass : Pass) : Text :=
  if pass.failures.isEmpty then []
  else "\n// Skipped rules:\n".toList ++ pass.failures.flatMap RuleFailure.reportLine

/-- The first line of the report, if the path is known. -/
def pathText : Option Text → Text
  | some path => "// REWRITE: ".toList ++ path ++ ['\n']
  | none => []

/-- The report of a pass. -/
def report (pass : Pass) (path : Option Text) : Text :=
  pathText path ++ "// Replacements: ".toList ++ Text.ofNat pass.replacements.length ++
    ('\n' :: (pass.changesText ++ pass.failuresText))

end Pass

end Repath

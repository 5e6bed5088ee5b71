/-
Outcomes in full, for a log: a record is its name and its fields between braces, a list stands
between brackets, and texts are in quotes.
-/
import Repath.Session
import Repath.Text.Quoted

namespace Repath

/-! ## Records and lists -/

/-- Texts with a comma and a space between neighbours. -/
def commaSeparated (ts : List Text) : Text :=
  [',', ' '].intercalate ts

/-- A record by its name and its fields. -/
def describedRecord (name : String) (fields : List (String × Text)) : Text :=
  name.toList ++ " \x7b ".toList ++
    commaSeparated (fields.map fun (key, value) => key.toList ++ ": ".toList ++ value) ++
    " \x7d".toList

/-- A list of texts. -/
def describedList (ts : List Text) : Text :=
  '[' :: (commaSeparated ts ++ [']'])

/-- A name with one value. -/
def describedValue (name : String) (value : Text) : Text :=
  name.toList ++ '(' :: (value ++ [')'])

/-! ## Outcomes -/

def RuleError.description : RuleError → Text
  | emptySource rule => describedValue "EmptySource" rule.quoted
  | badPattern pattern reason =>
    describedRecord "Pattern" [("pattern", pattern.quoted), ("reason", reason.quoted)]

def Replacement.description (replacement : Replacement) : Text :=
  describedRecord "ReplacementResult"
    [("original_text", replacement.before.quoted), ("replaced_text", replacement.after.quoted),
     ("rule_name", replacement.rule.quoted), ("line_number", Text.ofNat replacement.line),
     ("column_start", Text.ofNat replacement.columnStart),
     ("column_end", Text.ofNat replacement.columnEnd)]

def RuleFailure.description (failure : RuleFailure) : Text :=
  describedRecord "RuleFailure"
    [("rule_name", failure.rule.quoted), ("line_number", Text.ofNat failure.line),
     ("error", failure.error.description)]

def Pass.description (pass : Pass) : Text :=
  describedRecord "ProcessResult"
    [("has_changes", (if pass.hasChanges then "true" else "false").toList),
     ("replacements", describedList (pass.replacements.map Replacement.description)),
     ("failures", describedList (pass.failures.map RuleFailure.description))]

def Outcome.description : Outcome → Text
  | disabled => "Disabled".toList
  | coolingDown => "CoolingDown".toList
  | exempt rule => describedRecord "Exempt" [("rule", rule.quoted)]
  | unchanged pass => describedValue "Unchanged" pass.description
  | applied pass => describedValue "Applied" pass.description

end Repath

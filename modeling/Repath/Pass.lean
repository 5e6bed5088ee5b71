/-
A pass over a text: every enabled rule on every import line. On a line the rules form a chain, in
which each reads the line as the ones before it left it; what a chain does is a list of events,
each a replacement or a failure, and the trail of a pass is the events of its lines. The result of
a pass is its trail sorted into replacements and failures.
-/
import Repath.Config
import Repath.ImportLine
import Repath.Text.Cuts

namespace Repath

/-- One rule that changed one line. The columns count scalars and mark the first occurrence of the
source in the line as it was before. -/
structure Replacement where
  before : Text
  after : Text
  rule : Text
  line : Nat
  columnStart : Nat
  columnEnd : Nat
deriving DecidableEq, Repr

/-- One rule that failed on one line. -/
structure RuleFailure where
  rule : Text
  line : Nat
  error : RuleError
deriving DecidableEq, Repr

/-- Applies a rule to a line: every occurrence of its source gives way to its target. There is no
replacement if the source does not occur or the line stays as it is. -/
def Rule.apply (rule : Rule) (line : Text) (lineNumber : Nat) :
    Except RuleError (Option Replacement) :=
  if rule.source.isBlank then .error (.emptySource rule.name) else
  match line.cuts rule.source with
  | [] => .ok none
  | [_] => .ok none
  | first :: pieces =>
    let after := rule.target.intercalate (first :: pieces)
    if after = line then .ok none else
    .ok (some
      { before := line, after, rule := rule.name, line := lineNumber
        columnStart := first.length
        columnEnd := first.length + rule.source.length })

/-- What a rule did on a line. -/
inductive RuleEvent where
  | fired (replacement : Replacement)
  | failed (failure : RuleFailure)
deriving DecidableEq, Repr

namespace RuleEvent

def replacement? : RuleEvent → Option Replacement
  | fired r => some r
  | failed _ => none

def failure? : RuleEvent → Option RuleFailure
  | fired _ => none
  | failed f => some f

end RuleEvent

/-- What a pass found. -/
structure Pass where
  hasChanges : Bool := false
  replacements : List Replacement := []
  failures : List RuleFailure := []
deriving DecidableEq, Repr

namespace Pass

/-- The events of the rules on a line, in their order; a rule that fails leaves the line to the
next one. -/
def chain (lineNumber : Nat) : Text → List Rule → List RuleEvent
  | _, [] => []
  | line, rule :: rules =>
    match rule.apply line lineNumber with
    | .error error => .failed ⟨rule.name, lineNumber, error⟩ :: chain lineNumber line rules
    | .ok none => chain lineNumber line rules
    | .ok (some r) => .fired r :: chain lineNumber r.after rules

/-- The events of the rules on the import lines of a text. -/
def trail (rules : List Rule) (text : Text) : List RuleEvent :=
  text.lines.zipIdx.flatMap fun (line, lineNumber) =>
    if ImportLine.accepts line then chain lineNumber line rules else []

/-- A trail sorted by kind. -/
def ofTrail (events : List RuleEvent) : Pass :=
  let replacements := events.filterMap RuleEvent.replacement?
  { hasChanges := !replacements.isEmpty
    replacements
    failures := events.filterMap RuleEvent.failure? }

end Pass

namespace Config

/-- The events of a pass; a disabled configuration has none. -/
def trail (config : Config) (text : Text) : List RuleEvent :=
  if config.enabled then Pass.trail config.enabledRules text else []

/-- The pass of a configuration over a text. -/
def pass (config : Config) (text : Text) : Pass :=
  Pass.ofTrail (config.trail text)

end Config

end Repath

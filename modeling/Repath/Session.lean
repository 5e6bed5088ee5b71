/-
A session: the configuration, the exemptions compiled from it, and the cooldown. Saving a document
goes through the session in a fixed order: a disabled session, a cooling path and an exempt path
stop it before the document is read; then expired paths are swept, the text is scanned and the
edits are committed. Only a commit that went through is recorded and announced, so a failed one is
tried again at the next save.
-/
import Repath.Cooldown
import Repath.Exemption
import Repath.LiveDocument
import Repath.Report
import Repath.Trial

namespace Repath

structure Session where
  config : Config
  exemptions : Exemptions
  cooldown : Cooldown
deriving DecidableEq, Repr

/-- Where a save ended up. -/
inductive Outcome where
  | disabled
  | coolingDown
  | exempt (rule : Text)
  | unchanged (pass : Pass)
  | applied (pass : Pass)
deriving DecidableEq, Repr

def Outcome.isApplied : Outcome → Bool
  | applied _ => true
  | _ => false

/-- What is shown to the user. -/
inductive Notice where
  | ruleFailed (path : Text) (failure : RuleFailure)
  | applied (path : Text) (pass : Pass)
deriving DecidableEq, Repr

/-- Where notices go: nowhere, to the log, or to a console. -/
inductive Sink where
  | silent
  | log
  | console
deriving DecidableEq, Repr

namespace Notice

/-- What a sink reports of a notice. -/
def events : Sink → Notice → List Event
  | .silent, _ => []
  | .log, ruleFailed path f => [.skippedNotice path f.rule f.line f.error.message]
  | .log, applied path pass => [.appliedNotice path pass.replacements.length]
  | .console, ruleFailed path f => [.failedOnConsole path f.rule f.line f.error.message]
  | .console, applied _ _ => []

/-- What a sink prints for a notice: a console prints the reports of applied passes. -/
def output : Sink → Notice → Text
  | .console, applied path pass => pass.report (some path) ++ ['\n']
  | _, _ => []

end Notice

/-- What a rule did on a line, as an event. -/
def RuleEvent.event : RuleEvent → Event
  | fired r => .ruleMatched r.rule r.line
  | failed f => .ruleFailed f.rule f.line f.error.message

/-- What became of a save, with all that there is to tell of it. -/
structure Saved (σ : Type) where
  session : Session
  document : σ
  answer : Except CommitError Outcome
  /-- What was shown, in order. -/
  notices : List Notice := []
  /-- How many expired paths were swept. -/
  swept : Nat := 0
  /-- The events of the pass. -/
  trail : List RuleEvent := []
  /-- What the holder of the document reported. -/
  remarks : List Event := []

namespace Session

/-- A session with nothing behind it. -/
def start (config : Config) (cooldown : Cooldown := {}) : Session where
  config := config
  exemptions := Exemptions.ofRules config.rules
  cooldown := cooldown

/-- The session under a new configuration; the cooldown goes on. -/
def refresh (session : Session) (config : Config) : Session :=
  { session with config, exemptions := Exemptions.ofRules config.rules }

/-- The notices of failed rules, if notices are wanted. -/
def failureNotices (config : Config) (path : Text) (pass : Pass) : List Notice :=
  if config.showNotifications then pass.failures.map (.ruleFailed path) else []

/-- The notice of an applied pass, if notices are wanted. -/
def appliedNotices (config : Config) (path : Text) (pass : Pass) : List Notice :=
  if config.showNotifications then [.applied path pass] else []

/-- Scans a document and commits what the rules change. -/
def process {σ : Type} (session : Session) (kind : LiveDocument σ) (document : σ) (now : Nat) :
    Saved σ :=
  let path := kind.path document
  let swept := session.cooldown.sweptCount now
  let session := { session with cooldown := session.cooldown.sweep now }
  let trail := session.config.trail (kind.text document)
  let pass := Pass.ofTrail trail
  let notices := failureNotices session.config path pass
  if !pass.hasChanges then
    { session, document, answer := .ok (.unchanged pass), notices, swept, trail }
  else
    let commit := pass.commit kind document
    match commit.result with
    | .error error =>
      { session, document := commit.document, answer := .error error, notices, swept, trail
        remarks := commit.remarks }
    | .ok () =>
      { session := { session with cooldown := session.cooldown.record path now }
        document := commit.document
        answer := .ok (.applied pass)
        notices := notices ++ appliedNotices session.config path pass
        swept, trail, remarks := commit.remarks }

/-- Handles a save of a document. -/
def save {σ : Type} (session : Session) (kind : LiveDocument σ) (document : σ) (now : Nat) :
    Saved σ :=
  let path := kind.path document
  if !session.config.enabled then
    { session, document, answer := .ok .disabled }
  else if session.cooldown.isCooling path now then
    { session, document, answer := .ok .coolingDown }
  else
    match session.exemptions.matchingRule? path with
    | some rule => { session, document, answer := .ok (.exempt rule) }
    | none => session.process kind document now

/-- What starting or refreshing with a configuration reports of its patterns. -/
def patternEvents (config : Config) : List Event :=
  (Exemptions.refusals config.rules).map fun (rule, error) => .patternRefused rule error.message

/-- What a refresh reports. -/
def refreshEvents (config : Config) : List Event :=
  patternEvents config ++
    [.refreshed config.enabled config.rules.length (Exemptions.ofRules config.rules).size]

end Session

namespace Saved

/-- What a save of the given path reports, in the order it happened. -/
def events {σ : Type} (saved : Saved σ) (sink : Sink) (path : Text) : List Event :=
  let scan := (if saved.swept = 0 then [] else [.expiredRemoved saved.swept]) ++
    saved.trail.map RuleEvent.event
  let shown := saved.notices.flatMap (Notice.events sink)
  match saved.answer with
  | .ok .disabled => [.engineDisabled path]
  | .ok .coolingDown => [.recentlyProcessed path]
  | .ok (.exempt rule) => [.pathExempt path rule]
  | .ok (.unchanged _) => scan ++ shown ++ [.nothingToReplace path]
  | .error error => scan ++ shown ++ saved.remarks ++ [.commitFailed path error.message]
  | .ok (.applied pass) =>
    let failures := saved.notices.filter fun
      | .ruleFailed .. => true
      | .applied .. => false
    let announced := saved.notices.filter fun
      | .ruleFailed .. => false
      | .applied .. => true
    scan ++ failures.flatMap (Notice.events sink) ++ saved.remarks ++
      [.replacementsApplied path pass.replacements.length] ++
      announced.flatMap (Notice.events sink)

/-- What a save prints. -/
def output {σ : Type} (saved : Saved σ) (sink : Sink) : Text :=
  saved.notices.flatMap (Notice.output sink)

end Saved

end Repath

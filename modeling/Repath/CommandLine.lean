/-
The program: it reads its arguments and does what they ask for on a disk. A command that ends by
itself leaves an exit code, a text for the output and, if it failed, the first line of the error;
a watch gives a service that follows it.
-/
import Repath.Arguments
import Repath.Follower

namespace Repath

/-! ## Reports on a rule -/

namespace Trial

/-- A trial for a report: whether it succeeded, its text and its error, if it has one, in this
order. -/
def toJson (trial : Trial) : Json :=
  .object ([("success".toList, .bool trial.success), ("result".toList, .string trial.result)] ++
    match trial.error with
    | none => []
    | some error => [("error".toList, .string error)])

end Trial

namespace Sample

/-- A sample for a report. -/
def toJson (sample : Sample) : Json :=
  .object
    [("name".toList, .string sample.name), ("description".toList, .string sample.description),
     ("content".toList, .string sample.content)]

/-- A sample and the outcome of trying a rule on it, for a report. -/
def caseToJson (tried : Sample × Trial) : Json :=
  .object [("case".toList, tried.1.toJson), ("outcome".toList, tried.2.toJson)]

/-- The same for a reader. -/
def caseText (tried : Sample × Trial) : Text :=
  "// ".toList ++ tried.1.name ++ " (".toList ++ tried.1.description ++ ")\n".toList ++
    (match tried.2.error with
      | none => tried.2.result
      | some error => "[error] ".toList ++ error) ++ "\n\n".toList

end Sample

/-- The report of trying a rule on a text, or on the samples if there is none. -/
def Rule.tryReport (rule : Rule) (sample : Option Text) (asJson : Bool) : Except Failure Text :=
  match sample with
  | none =>
    let tried := rule.trySamples
    .ok (if asJson then (Json.array (tried.map Sample.caseToJson)).pretty
      else tried.flatMap Sample.caseText)
  | some text =>
    let trial := rule.trial text
    if asJson then .ok trial.toJson.pretty else
    match trial.error with
    | none => .ok trial.result
    | some reason => .error ⟨[], .ruleRejected reason⟩

/-! ## The program -/

/-- How a command ended. -/
structure Ended where
  disk : Disk
  code : Nat := 0
  output : Text := []
  /-- The first line of the error. -/
  headline : Option Text := none
  log : List Event := []

/-- A command ends, or goes on with a watch. -/
inductive Ran where
  | ended (result : Ended)
  | following (follower : Follower)

namespace CommandLine

/-- The exit code of arguments that are wrong. -/
def wrongArguments : Nat := 2

/-- The exit code of a command that failed. -/
def failed : Nat := 1

def usage : Text := Text.joinLines
  ["Replaces Go import paths on save by literal substitution rules.".toList,
   [],
   "Usage: repath [OPTIONS] <COMMAND>".toList,
   [],
   "Commands:".toList,
   "  watch [--debounce-ms <MS>] [ROOTS]...".toList,
   "  run <FILE>".toList,
   "  test-rule --from <FROM> --to <TO> [--name <NAME>] [--text <TEXT>] [--json]".toList,
   "  set-rules <RULES>".toList,
   [],
   "Options:".toList,
   "      --settings <SETTINGS>  [default: .vscode/settings.json]".toList,
   "  -v, --verbose".toList,
   "  -h, --help".toList,
   []]

/-- The end of a command that failed. -/
def fail (disk : Disk) (failure : Failure) (log : List Event := []) : Ended where
  disk := disk
  code := failed
  headline := some ("Error: ".toList ++ failure.headline.firstLine)
  log := log

/-- What a run of one file prints beside its report. -/
def outcomeText (file : Text) : Outcome → Text
  | .applied _ => []
  | .unchanged _ => "No import paths to rewrite in ".toList ++ file ++ ['\n']
  | .disabled => "Import rewriting is disabled\n".toList
  | .exempt rule => file ++ " is exempt (rule '".toList ++ rule ++ "')\n".toList
  | .coolingDown => file ++ " was processed recently\n".toList

/-- Processes one file. -/
def runFile (disk : Disk) (settings file : Text) (now : Nat) : Ended :=
  let log := Service.startEvents disk settings
  match Service.start disk settings with
  | .error failure => fail disk failure log
  | .ok service =>
    let handled := service.runNow disk file now .console
    let log := log ++ handled.events
    match handled.answer with
    | .error failure => fail handled.disk failure log
    | .ok outcome =>
      { disk := handled.disk
        output := handled.notices.flatMap (Notice.output .console) ++
          (outcome.map (outcomeText file)).getD []
        log }

/-- Tries a rule. -/
def tryRule (disk : Disk) (rule : Rule) (sample : Option Text) (asJson : Bool) : Ended :=
  match rule.tryReport sample asJson with
  | .error failure => fail disk failure
  | .ok report => { disk, output := report ++ ['\n'] }

/-- Saves rules. -/
def setRules (disk : Disk) (settings entries : Text) : Ended :=
  match Json.read? entries with
  | none => fail disk ⟨[.readRules], .json⟩
  | some raw =>
    if raw.items?.isNone then fail disk ⟨[], .rulesNotArray⟩ else
    let (disk, saved) := SettingsFile.saveRules disk settings raw
    let log := SettingsFile.saveEvents settings raw saved
    match saved with
    | .error failure => fail disk failure log
    | .ok update =>
      { disk
        output := "Saved ".toList ++ Text.ofNat update.kept.length ++ " rule(s) to ".toList ++
          settings ++ " (".toList ++ Text.ofNat update.dropped ++ " dropped)\n".toList
        log }

/-- Starts to follow saves below the given folders. -/
def startWatch (disk : Disk) (settings : Text) (roots : List Text) : Ran :=
  let log := Service.startEvents disk settings
  match Service.start disk settings with
  | .error failure => .ended (fail disk failure log)
  | .ok service =>
    let filter := WatchFilter.ofPatterns WatchFilter.defaultWanted WatchFilter.defaultUnwanted
    let log := log ++ Watch.startEvents disk WatchFilter.defaultWanted
      WatchFilter.defaultUnwanted roots (some settings)
    match Watch.start disk filter roots (some settings) with
    | .error e => .ended (fail disk ⟨[], .file e⟩ log)
    | .ok watch => .following { disk, service, watch, log := log ++ [.started settings] }

/-- The files and folders that a command looks at: its settings, and what it is to work on. -/
def subjects (invocation : Invocation) : List Text :=
  invocation.settings :: match invocation.command with
    | .watch roots _ => roots
    | .run file => [file]
    | .testRule .. => []
    | .setRules _ => []

/-- Does what the arguments ask for. -/
def run (disk : Disk) (arguments : List Text) (now : Nat) : Ran :=
  match Arguments.read arguments with
  | .error .help => .ended { disk, output := usage }
  | .error .wrong => .ended { disk, code := wrongArguments }
  | .ok invocation =>
    match invocation.command with
    | .watch roots _ => startWatch disk invocation.settings roots
    | .run file => .ended (runFile disk invocation.settings file now)
    | .testRule rule sample asJson => .ended (tryRule disk rule sample asJson)
    | .setRules entries => .ended (setRules disk invocation.settings entries)

end CommandLine

end Repath

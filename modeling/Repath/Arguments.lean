/-
The arguments of a command line. They are read from the left: options of the program, the name of a
command, then options and operands of the command. An option with a value takes the next argument
or what follows an equals sign; no option may be given twice on its side of the command's name. Two
dashes end the options. What the command says of the program's options wins over what stands
before it.
-/
import Repath.Files.SettingsFile

namespace Repath

/-- What a command line asks for. -/
inductive Command where
  | watch (roots : List Text) (quiet : Nat)
  | run (file : Text)
  | testRule (rule : Rule) (sample : Option Text) (asJson : Bool)
  | setRules (entries : Text)
deriving DecidableEq, Repr

structure Invocation where
  settings : Text
  verbose : Bool
  command : Command
deriving DecidableEq, Repr

namespace Arguments

/-- Why arguments ask for no command: for help, or because they are wrong. -/
inductive Stop where
  | help
  | wrong
deriving DecidableEq, Repr

/-- What one side of the command's name may hold. -/
structure Grammar where
  /-- The options with a value, each with the values it takes. -/
  valued : List (Text × (Text → Bool)) := []
  flags : List Text := []
  /-- How many operands there may be. -/
  mostOperands : Option Nat := none
  isOperand : Text → Bool := fun _ => true

/-- What was found on one side, operands last first. -/
structure Found where
  values : List (Text × Text) := []
  flags : List Text := []
  operands : List Text := []
deriving DecidableEq, Repr

/-! ## Reading -/

/-- Whether an argument stands for options; a lone dash does not. -/
def isOption (argument : Text) : Bool :=
  argument.head? == some '-' && argument.length ≠ 1

def helpFlag : Text := "help".toList

namespace Found

def raise (g : Grammar) (flag : Text) (found : Found) : Except Stop Found :=
  if flag = helpFlag then .error .help
  else if !g.flags.contains flag || found.flags.contains flag then .error .wrong
  else .ok { found with flags := flag :: found.flags }

def set (g : Grammar) (option value : Text) (found : Found) : Except Stop Found :=
  match g.valued.lookup option with
  | none => .error .wrong
  | some takes =>
    if (found.values.lookup option).isSome || !takes value then .error .wrong
    else .ok { found with values := (option, value) :: found.values }

def addOperand (g : Grammar) (operand : Text) (found : Found) : Except Stop Found :=
  if g.mostOperands == some found.operands.length || !g.isOperand operand then .error .wrong
  else .ok { found with operands := operand :: found.operands }

end Found

/-- The flag of a letter. -/
def letterFlag? (c : Char) : Option Text :=
  if c = 'h' then some helpFlag
  else if c = 'v' then some "verbose".toList
  else none

/-- Reads the letters behind a single dash. -/
def readLetters (g : Grammar) : Text → Found → Except Stop Found
  | [], found => .ok found
  | c :: rest, found =>
    match letterFlag? c with
    | none => .error .wrong
    | some flag =>
      match found.raise g flag with
      | .error stop => .error stop
      | .ok found => readLetters g rest found

/-- Reads one argument that stands for options; gives the option whose value is the next argument,
if there is one. -/
def readOption (g : Grammar) (argument : Text) (found : Found) :
    Except Stop (Found × Option Text) :=
  match argument with
  | '-' :: '-' :: body =>
    let name := body.takeWhile (· != '=')
    match body.dropWhile (· != '=') with
    | _ :: value => (found.set g name value).map (·, none)
    | [] =>
      if (g.valued.lookup name).isSome then .ok (found, some name)
      else (found.raise g name).map (·, none)
  | _ => (readLetters g (argument.drop 1) found).map (·, none)

/-- Reads operands only. -/
def readOperands (g : Grammar) : List Text → Found → Except Stop Found
  | [], found => .ok found
  | argument :: rest, found =>
    match found.addOperand g argument with
    | .error stop => .error stop
    | .ok found => readOperands g rest found

/-- Reads one side, with the option whose value comes next. Before the command's name, the first
operand ends the side. -/
def readSide (g : Grammar) (beforeCommand : Bool) : List Text → Option Text → Found →
    Except Stop (Found × List Text)
  | [], none, found => .ok (found, [])
  | [], some _, _ => .error .wrong
  | argument :: rest, some option, found =>
    if isOption argument then .error .wrong else
    match found.set g option argument with
    | .error stop => .error stop
    | .ok found => readSide g beforeCommand rest none found
  | argument :: rest, none, found =>
    if argument = ['-', '-'] then
      if beforeCommand then .error .wrong else (readOperands g rest found).map (·, [])
    else if isOption argument then
      match readOption g argument found with
      | .error stop => .error stop
      | .ok (found, next) => readSide g beforeCommand rest next found
    else if beforeCommand then .ok (found, argument :: rest)
    else
      match found.addOperand g argument with
      | .error stop => .error stop
      | .ok found => readSide g beforeCommand rest none found

/-! ## Numbers -/

/-- The number that decimal digits write, if there are any and nothing else. -/
def digits? (t : Text) : Option Nat :=
  if t.isEmpty || !t.all Char.isDigit then none
  else some (t.foldl (fun n c => 10 * n + (c.toNat - '0'.toNat)) 0)

/-- The number of 64 bits that an argument writes, with or without a plus in front. -/
def number? (t : Text) : Option Nat :=
  match digits? (match t with
    | '+' :: rest => rest
    | _ => t) with
  | none => none
  | some n => if n < UInt64.size then some n else none

/-! ## Commands -/

def settingsOption : Text := "settings".toList
def verboseFlag : Text := "verbose".toList
def quietOption : Text := "debounce-ms".toList
def sourceOption : Text := "from".toList
def targetOption : Text := "to".toList
def nameOption : Text := "name".toList
def sampleOption : Text := "text".toList
def jsonFlag : Text := "json".toList

/-- A path may be any text but the empty one. -/
def isPath (value : Text) : Bool :=
  !value.isEmpty

/-- The options of the program, which stand on either side of the command's name. -/
def program : Grammar where
  valued := [(settingsOption, isPath)]
  flags := [verboseFlag]

inductive CommandName where
  | watch
  | run
  | testRule
  | setRules
deriving DecidableEq, Repr

namespace CommandName

def ofText? (name : Text) : Option CommandName :=
  if name = "watch".toList then some watch
  else if name = "run".toList then some run
  else if name = "test-rule".toList then some testRule
  else if name = "set-rules".toList then some setRules
  else none

/-- What may follow the name. -/
def grammar : CommandName → Grammar
  | watch =>
    { program with
      valued := (quietOption, fun value => (number? value).isSome) :: program.valued
      isOperand := isPath }
  | run => { program with mostOperands := some 1, isOperand := isPath }
  | testRule =>
    { program with
      valued := [sourceOption, targetOption, nameOption, sampleOption].map (·, fun _ => true) ++
        program.valued
      flags := jsonFlag :: program.flags
      mostOperands := some 0 }
  | setRules => { program with mostOperands := some 1 }

/-- How long a watch waits for a burst of writes to end, in milliseconds. -/
def quietTime : Nat := 100

/-- The command that was found, if nothing it needs is missing. -/
def command? (found : Found) : CommandName → Option Command
  | watch =>
    let roots := if found.operands.isEmpty then [['.']] else found.operands.reverse
    some (.watch roots (((found.values.lookup quietOption).bind number?).getD quietTime))
  | run =>
    match found.operands with
    | [file] => some (.run file)
    | _ => none
  | testRule =>
    match found.values.lookup sourceOption, found.values.lookup targetOption with
    | some source, some target =>
      let name := (found.values.lookup nameOption).getD "test".toList
      some (.testRule { name, source, target } (found.values.lookup sampleOption)
        (found.flags.contains jsonFlag))
    | _, _ => none
  | setRules =>
    match found.operands with
    | [entries] => some (.setRules entries)
    | _ => none

end CommandName

/-- Why a command for help stops: because it asks for help on the program or on a command, or on
something else, which is wrong. -/
def helpStop : List Text → Stop
  | [] => .help
  | [name] => if name = helpFlag || (CommandName.ofText? name).isSome then .help else .wrong
  | _ => .wrong

/-- Reads the arguments of the program. -/
def read (arguments : List Text) : Except Stop Invocation :=
  match readSide program true arguments none {} with
  | .error stop => .error stop
  | .ok (_, []) => .error .wrong
  | .ok (before, name :: rest) =>
    if name = helpFlag then .error (helpStop rest) else
    match CommandName.ofText? name with
    | none => .error .wrong
    | some name =>
      match readSide name.grammar false rest none {} with
      | .error stop => .error stop
      | .ok (found, _) =>
        match name.command? found with
        | none => .error .wrong
        | some command => .ok
            { settings := ((found.values.lookup settingsOption).or
                (before.values.lookup settingsOption)).getD SettingsFile.defaultPath
              verbose := found.flags.contains verboseFlag || before.flags.contains verboseFlag
              command }

end Arguments

end Repath

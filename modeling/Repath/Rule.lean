/-
Rules, and the reading of rules from settings. A rule names a literal source and its literal
target; an entry of the settings is a rule if it is an object whose name and source are texts that
are not blank and whose target is a text. Any other entry is rejected for the first reason that
holds, and the rest are kept in their order.
-/
import Repath.Json

namespace Repath

/-- A literal source and what takes its place in import lines. -/
structure Rule where
  name : Text
  source : Text
  target : Text
  /-- The globs of the paths that the rule keeps from being processed, by any rule. -/
  exemptPaths : List Text := []
  enabled : Bool := true
deriving DecidableEq, Repr

/-- Why a rule could not do its work. -/
inductive RuleError where
  | emptySource (rule : Text)
  | badPattern (pattern reason : Text)
deriving DecidableEq, Repr

def RuleError.message : RuleError → Text
  | .emptySource rule => "rule \"".toList ++ rule ++ "\" has an empty source string".toList
  | .badPattern pattern reason =>
    "invalid exemption pattern \"".toList ++ pattern ++ "\": ".toList ++ reason

/-- Why an entry of the settings is no rule. -/
inductive Rejection where
  | notObject
  | noName
  | noSource (name : Text)
  | noTarget (name : Text)
deriving DecidableEq, Repr

namespace Rule

def nameKey : Text := "name".toList
def sourceKey : Text := "from".toList
def targetKey : Text := "to".toList
def exemptPathsKey : Text := "exemptPaths".toList
def enabledKey : Text := "enabled".toList

/-- The trimmed text of a field, if it is a text that is not blank. -/
def trimmedField (key : Text) (entry : Json) : Option Text :=
  match (entry.get? key).bind Json.text? with
  | none => none
  | some t => if t.trim.isEmpty then none else some t.trim

/-- The texts of an array; anything else in it, or in its place, is left out. -/
def textsField (key : Text) (entry : Json) : List Text :=
  (((entry.get? key).bind Json.items?).getD []).filterMap Json.text?

/-- Reads one entry. The target is taken as it is, blank or not; a missing switch is off. -/
def ofJson (entry : Json) : Except Rejection Rule :=
  if !entry.isObject then .error .notObject else
  match trimmedField nameKey entry with
  | none => .error .noName
  | some name =>
    match trimmedField sourceKey entry with
    | none => .error (.noSource name)
    | some source =>
      match (entry.get? targetKey).bind Json.text? with
      | none => .error (.noTarget name)
      | some target => .ok
          { name, source, target
            exemptPaths := textsField exemptPathsKey entry
            enabled := ((entry.get? enabledKey).map Json.truthy).getD false }

/-- The rules among the entries of an array, in their order; anything but an array has none. -/
def listOfJson (raw : Json) : List Rule :=
  (raw.items?.getD []).filterMap fun entry => (ofJson entry).toOption

/-- The entries that are no rules, with their places and the reasons. -/
def rejections (raw : Json) : List (Nat × Rejection) :=
  (raw.items?.getD []).zipIdx.filterMap fun (entry, index) =>
    match ofJson entry with
    | .ok _ => none
    | .error reason => some (index, reason)

/-- Writes a rule as an entry; its fields are in the order of their keys. -/
def toJson (rule : Rule) : Json :=
  .object
    [(enabledKey, .bool rule.enabled),
     (exemptPathsKey, .array (rule.exemptPaths.map .string)),
     (sourceKey, .string rule.source),
     (nameKey, .string rule.name),
     (targetKey, .string rule.target)]

def listToJson (rules : List Rule) : Json :=
  .array (rules.map toJson)

end Rule

end Repath

/-
The configuration, and the three shapes of a settings document it is read from: a section under
its own name (nested), dotted keys that start with that name (flat), or the section itself (bare).
Reading and writing choose the shape by the same test, and writing rules leaves every other key
alone.
-/
import Repath.Rule

namespace Repath

/-- What a session works by. The order of the rules is the order they apply in. -/
structure Config where
  enabled : Bool := true
  rules : List Rule := []
  showNotifications : Bool := true
deriving DecidableEq, Repr

/-- Where the section stands in a settings document. -/
inductive Shape where
  | nested
  | flat
  | bare
deriving DecidableEq, Repr

/-- Why a settings document cannot be used. -/
inductive SettingsError where
  | notObject
deriving DecidableEq, Repr

def SettingsError.message : SettingsError → Text
  | .notObject => "Config error: settings document must be a JSON object".toList

namespace Config

def enabledKey : Text := "enabled".toList
def rulesKey : Text := "rules".toList
def showNotificationsKey : Text := "showNotifications".toList

/-- A switch of the section; anything but a truth value leaves it on. -/
def switch (key : Text) (part : Json) : Bool :=
  ((part.get? key).bind Json.bool?).getD true

/-- Reads a section. -/
def ofSection (part : Json) : Config where
  enabled := switch enabledKey part
  rules := ((part.get? rulesKey).map Rule.listOfJson).getD []
  showNotifications := switch showNotificationsKey part

/-- The rules that take part, in order. -/
def enabledRules (config : Config) : List Rule :=
  config.rules.filter (·.enabled)

end Config

namespace Settings

/-- The name of the section, which editors share. -/
def sectionName : Text := "replace-go-import".toList

/-- The start of the keys of the flat shape. -/
def flatStart : Text := sectionName ++ ['.']

/-- The keys that make a document the section itself. -/
def sectionKeys : List Text :=
  [Config.enabledKey, Config.rulesKey, Config.showNotificationsKey]

/-- The shape of a document's fields: nested if the section's name holds an object, else bare if
one of the section's keys is there, else flat. -/
def shapeOf (fields : Json.Fields) : Shape :=
  if ((Json.lookup sectionName fields).map Json.isObject).getD false then .nested
  else if sectionKeys.any fun key => (Json.lookup key fields).isSome then .bare
  else .flat

def shape? : Json → Except SettingsError Shape
  | .object fields => .ok (shapeOf fields)
  | _ => .error .notObject

/-- The fields of the flat shape, by their keys in the section. -/
def flatFields (fields : Json.Fields) : Json.Fields :=
  fields.filterMap fun (key, value) =>
    if flatStart.isPrefixOf key then some (key.drop flatStart.length, value) else none

/-- The section of a document with the given fields. -/
def sectionOf (fields : Json.Fields) : Json :=
  match shapeOf fields with
  | .nested => (Json.lookup sectionName fields).getD .null
  | .bare => .object fields
  | .flat => .object (flatFields fields)

def section? : Json → Except SettingsError (Shape × Json)
  | .object fields => .ok (shapeOf fields, sectionOf fields)
  | _ => .error .notObject

/-- The configuration of a document. -/
def config? (document : Json) : Except SettingsError Config :=
  (section? document).map fun found => Config.ofSection found.2

/-- The fields with the rules in place of the old ones, or at their place in the order. -/
def writeFields (rules : List Rule) (fields : Json.Fields) : Json.Fields :=
  let encoded := Rule.listToJson rules
  match shapeOf fields with
  | .nested =>
    match Json.lookup sectionName fields with
    | some (.object inner) =>
      Json.insertField sectionName (.object (Json.insertField Config.rulesKey encoded inner)) fields
    | _ => fields
  | .flat => Json.insertField (flatStart ++ Config.rulesKey) encoded fields
  | .bare => Json.insertField Config.rulesKey encoded fields

/-- The document with the given rules; it keeps its shape and every other key. -/
def writeRules (rules : List Rule) : Json → Except SettingsError Json
  | .object fields => .ok (.object (writeFields rules fields))
  | _ => .error .notObject

/-- Rules submitted for saving: those that are kept, and how many entries were dropped. -/
structure Update where
  kept : List Rule
  dropped : Nat
deriving DecidableEq, Repr

def prepare (raw : Json) : Update where
  kept := Rule.listOfJson raw
  dropped := (raw.items?.getD []).length - (Rule.listOfJson raw).length

end Settings

end Repath

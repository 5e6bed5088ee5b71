/-
JSON values. The fields of an object are kept in the order of their keys, compared scalar by
scalar, and a key occurs once: `insertField` keeps that order and replaces the value of a key that
is there. A number is a whole number of 64 bits, signed or not, or a binary64 value.
-/
import Repath.Text
import Repath.Double

namespace Repath

/-- A number is kept as it is written: a whole number, or a binary64 value. -/
inductive Number where
  | whole (n : Int)
  | double (d : Double)
deriving DecidableEq, Repr

inductive Json where
  | null
  | bool (b : Bool)
  | number (n : Number)
  | string (s : Text)
  | array (items : List Json)
  | object (fields : List (Text × Json))

namespace Json

abbrev Fields := List (Text × Json)

/-- The value of a key. -/
def lookup (key : Text) : Fields → Option Json
  | [] => none
  | (k, v) :: rest => if k = key then some v else lookup key rest

/-- Puts a value at a key: over the old value, or at the key's place in the order. -/
def insertField (key : Text) (value : Json) : Fields → Fields
  | [] => [(key, value)]
  | (k, v) :: rest =>
    if key = k then (key, value) :: rest
    else if key < k then (key, value) :: (k, v) :: rest
    else (k, v) :: insertField key value rest

/-- Puts a value at a key that is not there yet, and leaves a key that is there alone. -/
def insertNew (key : Text) (value : Json) : Fields → Fields
  | [] => [(key, value)]
  | (k, v) :: rest =>
    if key = k then (k, v) :: rest
    else if key < k then (key, value) :: (k, v) :: rest
    else (k, v) :: insertNew key value rest

/-- The fields written one after the other, in order of their keys; of a repeated key the last
value counts. -/
def sortFields (written : Fields) : Fields :=
  written.foldr (fun f sorted => insertNew f.1 f.2 sorted) []

/-- The value of a key, if the value is an object that has it. -/
def get? (key : Text) : Json → Option Json
  | object fields => lookup key fields
  | _ => none

def isObject : Json → Bool
  | object _ => true
  | _ => false

def bool? : Json → Option Bool
  | bool b => some b
  | _ => none

def text? : Json → Option Text
  | string s => some s
  | _ => none

def items? : Json → Option (List Json)
  | array items => some items
  | _ => none

/-- The loose reading of a value as a switch: off are `null`, `false`, zero and the empty text. -/
def truthy : Json → Bool
  | null => false
  | bool b => b
  | number (.whole n) => n != 0
  | number (.double d) => !d.isZero
  | string s => !s.isEmpty
  | array _ => true
  | object _ => true

def nat (n : Nat) : Json :=
  number (.whole n)

end Json

end Repath

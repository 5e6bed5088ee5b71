/-
Reading JSON. A reader takes a text and gives a value with the text after it, or nothing. Values
may nest 127 containers deep; the depth that is left is the structure the reader recurses on, and
the loops over items and over digits of a container are bounded by the length of the whole text,
which no loop can exceed, since each turn takes at least one character.
-/
import Repath.Json

namespace Repath.Json

/-- The white space that may stand around values. -/
def isSpace (c : Char) : Bool :=
  c == ' ' || c == '\n' || c == '\t' || c == '\r'

def skipSpace (t : Text) : Text :=
  t.dropWhile isSpace

/-! ## Numbers -/

def isDigit (c : Char) : Bool :=
  '0' ≤ c && c ≤ '9'

def digitValue (c : Char) : Nat :=
  c.toNat - '0'.toNat

/-- Appends digits to a significand as long as it stays below `2 ^ 64`; gives the significand with
the digits that did not fit. -/
def absorb : Nat → Text → Nat × Text
  | n, [] => (n, [])
  | n, c :: rest =>
    if n * 10 + digitValue c < UInt64.size then absorb (n * 10 + digitValue c) rest
    else (n, c :: rest)

/-- The number that digits write. -/
def digitsValue (digits : Text) : Nat :=
  digits.foldl (fun n c => n * 10 + digitValue c) 0

/-- The digits of a whole part: a lone zero, or digits that do not start with zero. -/
def readWhole (t : Text) : Option (Text × Text) :=
  let digits := t.takeWhile isDigit
  match digits with
  | [] => none
  | c :: rest => if c = '0' && !rest.isEmpty then none else some (digits, t.dropWhile isDigit)

/-- The digits after a point, if there is one; at least one must follow it. -/
def readFraction : Text → Option (Option Text × Text)
  | '.' :: t =>
    let digits := t.takeWhile isDigit
    if digits.isEmpty then none else some (some digits, t.dropWhile isDigit)
  | t => some (none, t)

/-- The exponent, if there is one. -/
def readExponent : Text → Option (Option Int × Text)
  | [] => some (none, [])
  | c :: t =>
    if c = 'e' || c = 'E' then
      let (negative, t) := match t with
        | '+' :: t => (false, t)
        | '-' :: t => (true, t)
        | t => (false, t)
      let digits := t.takeWhile isDigit
      if digits.isEmpty then none else
      let n : Int := digitsValue digits
      some (some (if negative then -n else n), t.dropWhile isDigit)
    else some (none, c :: t)

/-- A number from its parts. It is a whole number if it has neither fraction nor exponent, its
digits fit 64 bits, and it is not minus zero; else it is the significand of the digits that fit,
scaled by the power of ten that the point, the exponent and the whole digits left out call for. -/
def assemble (negative : Bool) (whole : Text) (fraction : Option Text) (exponent : Option Int) :
    Option Number :=
  let (significand, left) := absorb 0 whole
  if fraction.isNone && exponent.isNone && left.isEmpty && !negative then
    some (.whole significand)
  else if fraction.isNone && exponent.isNone && left.isEmpty && 0 < significand
      && significand ≤ UInt64.size / 2 then
    some (.whole (-(significand : Int)))
  else
    let digits := fraction.getD []
    let (significand, unread) := absorb significand digits
    let taken := digits.length - unread.length
    (Double.ofDecimal negative significand
      ((left.length : Int) - (taken : Int) + exponent.getD 0)).map .double

/-- A number without its sign. -/
def readUnsigned (negative : Bool) (t : Text) : Option (Json × Text) := do
  let (whole, t) ← readWhole t
  let (fraction, t) ← readFraction t
  let (exponent, t) ← readExponent t
  let n ← assemble negative whole fraction exponent
  return (number n, t)

/-! ## Texts -/

/-- The value of a hexadecimal digit in either case. -/
def hexValue? (c : Char) : Option Nat :=
  if '0' ≤ c && c ≤ '9' then some (c.toNat - '0'.toNat)
  else if 'a' ≤ c && c ≤ 'f' then some (c.toNat - 'a'.toNat + 10)
  else if 'A' ≤ c && c ≤ 'F' then some (c.toNat - 'A'.toNat + 10)
  else none

/-- Four hexadecimal digits. -/
def readUnit : Text → Option (Nat × Text)
  | a :: b :: c :: d :: t => do
    let a ← hexValue? a
    let b ← hexValue? b
    let c ← hexValue? c
    let d ← hexValue? d
    return (((a * 16 + b) * 16 + c) * 16 + d, t)
  | _ => none

/-- What a letter after a backslash stands for. -/
def unescape? (c : Char) : Option Char :=
  match c with
  | '"' => some '"'
  | '\\' => some '\\'
  | '/' => some '/'
  | 'b' => some '\x08'
  | 'f' => some '\x0C'
  | 'n' => some '\n'
  | 'r' => some '\r'
  | 't' => some '\t'
  | _ => none

/-- The scalar of an escape with hexadecimal digits, after its `u`. A surrogate counts only as a
pair, high before low. -/
def readScalar (t : Text) : Option (Char × Text) := do
  let (unit, t) ← readUnit t
  if 0xDC00 ≤ unit && unit ≤ 0xDFFF then none
  else if 0xD800 ≤ unit && unit ≤ 0xDBFF then
    match t with
    | '\\' :: 'u' :: t =>
      let (low, t) ← readUnit t
      if 0xDC00 ≤ low && low ≤ 0xDFFF then
        return (Char.ofNat (0x10000 + (unit - 0xD800) * 0x400 + (low - 0xDC00)), t)
      else none
    | _ => none
  else return (Char.ofNat unit, t)

/-- The text after an opening quote up to the closing one; `done` holds what is read, last first.
`turns` bounds the loop. -/
def readQuoted : Nat → Text → Text → Option (Text × Text)
  | 0, _, _ => none
  | _, [], _ => none
  | turns + 1, c :: t, done =>
    if c = '"' then some (done.reverse, t)
    else if c = '\\' then
      match t with
      | [] => none
      | 'u' :: t =>
        match readScalar t with
        | none => none
        | some (c, t) => readQuoted turns t (c :: done)
      | c :: t =>
        match unescape? c with
        | none => none
        | some c => readQuoted turns t (c :: done)
    else if c.toNat < 0x20 then none
    else readQuoted turns t (c :: done)

/-! ## Containers -/

/-- The items after the first character of an array that is not empty: an item, then a comma and
more items, or the closing bracket. -/
def readItems (item : Text → Option (Json × Text)) :
    Nat → Text → List Json → Option (List Json × Text)
  | 0, _, _ => none
  | turns + 1, t, done =>
    match item (skipSpace t) with
    | none => none
    | some (j, t) =>
      match skipSpace t with
      | ',' :: t => readItems item turns t (j :: done)
      | ']' :: t => some ((j :: done).reverse, t)
      | _ => none

/-- A key with its colon. -/
def readKey (turns : Nat) (t : Text) : Option (Text × Text) :=
  match skipSpace t with
  | '"' :: t =>
    match readQuoted turns t [] with
    | none => none
    | some (key, t) =>
      match skipSpace t with
      | ':' :: t => some (key, t)
      | _ => none
  | _ => none

/-- The fields of an object that is not empty, as they are written. -/
def readFields (length : Nat) (item : Text → Option (Json × Text)) :
    Nat → Text → Fields → Option (Fields × Text)
  | 0, _, _ => none
  | turns + 1, t, done =>
    match readKey length t with
    | none => none
    | some (key, t) =>
      match item (skipSpace t) with
      | none => none
      | some (j, t) =>
        match skipSpace t with
        | ',' :: t => readFields length item turns t ((key, j) :: done)
        | '}' :: t => some (((key, j) :: done).reverse, t)
        | _ => none

/-- The text after a given start. -/
def expect : Text → Text → Option Text
  | [], t => some t
  | _ :: _, [] => none
  | c :: rest, d :: t => if c = d then expect rest t else none

/-- A value at the start of a text, with `depth` containers still allowed. -/
def readValue (length : Nat) : Nat → Text → Option (Json × Text)
  | _, [] => none
  | depth, c :: t =>
    if c = '"' then (readQuoted length t []).map fun r => (string r.1, r.2)
    else if c = '-' then readUnsigned true t
    else if isDigit c then readUnsigned false (c :: t)
    else if c = 'n' then (expect ['u', 'l', 'l'] t).map fun t => (null, t)
    else if c = 't' then (expect ['r', 'u', 'e'] t).map fun t => (bool true, t)
    else if c = 'f' then (expect ['a', 'l', 's', 'e'] t).map fun t => (bool false, t)
    else
      match depth with
      | 0 => none
      | depth + 1 =>
        if c = '[' then
          match skipSpace t with
          | ']' :: t => some (array [], t)
          | t => (readItems (readValue length depth) length t []).map fun r => (array r.1, r.2)
        else if c = '{' then
          match skipSpace t with
          | '}' :: t => some (object [], t)
          | t => (readFields length (readValue length depth) length t []).map
              fun r => (object (sortFields r.1), r.2)
        else none

/-- The deepest nesting of containers. -/
def maxDepth : Nat := 127

/-- The value a whole text writes, white space around it apart. -/
def read? (t : Text) : Option Json :=
  match readValue (t.length + 1) maxDepth (skipSpace t) with
  | some (j, rest) => if (skipSpace rest).isEmpty then some j else none
  | none => none

end Repath.Json

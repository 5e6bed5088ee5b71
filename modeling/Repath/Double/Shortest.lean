/-
The shortest decimal text of a binary64 value. The reals that round to a value form an interval,
closed if its mantissa is even; of the decimal grids with one digit, two digits, and so on, the
first with a point in the interval gives the digits, and of two such points the nearer one counts.
All of it is arithmetic on whole numbers: the value and the ends of its interval are whole
multiples of one power of ten.
-/
import Repath.Double

namespace Repath.Double

/-- A value with the interval that rounds to it, all three as multiples of `10 ^ scale`. -/
structure Interval where
  low : Nat
  value : Nat
  high : Nat
  scale : Int
  closed : Bool

/-- The interval of a nonzero value. Quarters of the unit in the last place are whole multiples of
`2 ^ (exponent - 2)`; below a power of two the gap is half as wide. -/
def interval (d : Double) : Interval :=
  let quarter := d.exponent - 2
  let below := if d.mantissa = Nat.pow 2 52 && d.exponent > minExponent then 1 else 2
  let unit := match quarter with
    | .ofNat k => Nat.pow 2 k
    | .negSucc k => Nat.pow 5 (k + 1)
  { low := (4 * d.mantissa - below) * unit
    value := 4 * d.mantissa * unit
    high := (4 * d.mantissa + 2) * unit
    scale := min quarter 0
    closed := d.mantissa % 2 == 0 }

/-- Whether a multiple of the interval's power of ten rounds to its value. -/
def Interval.contains (i : Interval) (n : Nat) : Bool :=
  if i.closed then i.low ≤ n && n ≤ i.high else i.low < n && n < i.high

/-- The point of the grid `unit` in the interval that is nearest to the value, as a number of
units; at equal distance the even number. -/
def Interval.nearest? (i : Interval) (unit : Nat) : Option Nat :=
  let a := i.value / unit
  let down := i.value - a * unit
  let up := (a + 1) * unit - i.value
  match i.contains (a * unit), i.contains ((a + 1) * unit) with
  | true, true => some (if down < up || (down == up && a % 2 == 0) then a else a + 1)
  | true, false => some a
  | false, true => some (a + 1)
  | false, false => none

/-- Tries grids of ever more digits; `width` is the number of digits of the value. -/
def Interval.search (i : Interval) (width : Nat) : Nat → Nat → Nat × Nat
  | 0, _ => (i.value, 0)
  | tries + 1, digits =>
    match i.nearest? (Nat.pow 10 (width - digits)) with
    | some n => (n, width - digits)
    | none => i.search width tries (digits + 1)

/-- The shortest digits of a nonzero value with the power of ten of their last one. -/
def shortest (d : Double) : Nat × Int :=
  let i := d.interval
  let found := i.search (Nat.repr i.value).length 17 1
  (found.1, i.scale + found.2)

/-- The least exponent of a first digit that is written positionally. -/
def minPositional : Int := -5

/-- The greatest exponent of a first digit that is written positionally. -/
def maxPositional : Int := 15

/-- Digits without zeros at their end. -/
def significantDigits (n : Nat) : List Char :=
  ((Nat.repr n).toList.reverse.dropWhile (· == '0')).reverse

/-- A positional text always has a point with a digit on both sides; any other has one digit before
the point, no point without digits after it, and a signed exponent without padding. -/
def layout (digits : List Char) (exponent : Int) : List Char :=
  if minPositional ≤ exponent && exponent ≤ maxPositional then
    match exponent with
    | .ofNat k =>
      if digits.length ≤ k + 1 then
        digits ++ List.replicate (k + 1 - digits.length) '0' ++ ['.', '0']
      else
        digits.take (k + 1) ++ '.' :: digits.drop (k + 1)
    | .negSucc k => '0' :: '.' :: List.replicate k '0' ++ digits
  else
    let mantissa := match digits with
      | [] => []
      | [c] => [c]
      | c :: rest => c :: '.' :: rest
    let power := match exponent with
      | .ofNat k => '+' :: (Nat.repr k).toList
      | .negSucc k => '-' :: (Nat.repr (k + 1)).toList
    mantissa ++ 'e' :: power

/-- The shortest text that reads back as the value. -/
def text (d : Double) : List Char :=
  let size :=
    if d.isZero then ['0', '.', '0'] else
    let (n, power) := d.shortest
    layout (significantDigits n) (power + ((Nat.repr n).length - 1 : Nat))
  if d.negative then '-' :: size else size

end Repath.Double

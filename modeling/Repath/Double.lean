/-
Finite binary64 values as exact dyadic numbers. A value is a sign, a mantissa of at most 53 bits
and a power of two; `ofRatio` rounds an exact ratio to the nearest value, a tie to the even
mantissa, and `ofDecimal` scales a whole number by powers of ten, one rounding a step.
-/

namespace Repath

/-- The value `mantissa * 2 ^ exponent`, negated if `negative`. The mantissa has 53 bits, except
at the least exponent −1074, where it may have fewer. -/
structure Double where
  negative : Bool
  mantissa : Nat
  exponent : Int
deriving DecidableEq, Repr

/-- The whole number nearest to `num / den`; a half goes to the even neighbour. -/
def roundHalfEven (num den : Nat) : Nat :=
  let q := num / den
  let r := num % den
  if 2 * r > den || (2 * r == den && q % 2 == 1) then q + 1 else q

/-- The ratio `num / den * 2 ^ shift`, as two naturals. -/
def shiftRatio (num den : Nat) : Int → Nat × Nat
  | .ofNat k => (num * Nat.pow 2 k, den)
  | .negSucc k => (num, den * Nat.pow 2 (k + 1))

namespace Double

/-- The least exponent, that of the values closest to zero. -/
def minExponent : Int := -1074

/-- The greatest exponent of a finite value. -/
def maxExponent : Int := 971

def zero (negative : Bool) : Double :=
  ⟨negative, 0, minExponent⟩

def isZero (d : Double) : Bool :=
  d.mantissa == 0

/-- The value nearest to `num / den`, a tie to the even mantissa; `none` if it is not finite.
With `k` the difference of the bit lengths the ratio lies between `2 ^ (k - 1)` and `2 ^ (k + 1)`,
so one of two exponents gives a mantissa of 53 bits. -/
def ofRatio (negative : Bool) (num den : Nat) : Option Double :=
  if num = 0 then some (zero negative) else
  let low : Int := (num.log2 : Int) - (den.log2 : Int) - 53
  let scaled := shiftRatio num den (-low)
  let exact := if scaled.1 < Nat.pow 2 53 * scaled.2 then low else low + 1
  let exponent := max exact minExponent
  let ratio := shiftRatio num den (-exponent)
  let mantissa := roundHalfEven ratio.1 ratio.2
  let d : Double :=
    if mantissa = Nat.pow 2 53 then ⟨negative, Nat.pow 2 52, exponent + 1⟩
    else ⟨negative, mantissa, exponent⟩
  if d.exponent > maxExponent then none else some d

/-- The rounded product of the sizes, with the sign of the first factor. -/
def mul? (a b : Double) : Option Double :=
  let ratio := shiftRatio (a.mantissa * b.mantissa) 1 (a.exponent + b.exponent)
  ofRatio a.negative ratio.1 ratio.2

/-- The rounded quotient of the sizes, with the sign of the dividend. -/
def div? (a b : Double) : Option Double :=
  let ratio := shiftRatio a.mantissa b.mantissa (a.exponent - b.exponent)
  ofRatio a.negative ratio.1 ratio.2

/-- The value nearest to ten to the power `k`. -/
def powerOfTen? (k : Nat) : Option Double :=
  ofRatio false (Nat.pow 10 k) 1

/-- The greatest power of ten below the largest finite value. -/
def maxPower : Nat := 308

/-- Divides by the greatest power of ten `steps` times; a value that has become zero stays zero. -/
def divideBySteps? : Nat → Double → Option Double
  | 0, d => some d
  | steps + 1, d =>
    if d.isZero then some d
    else ((powerOfTen? maxPower).bind d.div?).bind (divideBySteps? steps)

/-- Divides by ten to the power `k + 1`, by the greatest power as long as more remains. -/
def divideByTens? (d : Double) (k : Nat) : Option Double :=
  let steps := k / maxPower
  (divideBySteps? steps d).bind fun d =>
    (powerOfTen? (k + 1 - steps * maxPower)).bind d.div?

/-- The value read for `significand * 10 ^ exponent`: the significand is rounded first, then the
scaled value; `none` if it is not finite. -/
def ofDecimal (negative : Bool) (significand : Nat) (exponent : Int) : Option Double :=
  match ofRatio negative significand 1, exponent with
  | none, _ => none
  | some d, .negSucc k => divideByTens? d k
  | some d, .ofNat k =>
    if d.isZero then some d
    else if k ≤ maxPower then (powerOfTen? k).bind d.mul?
    else none

end Double

end Repath

/-!
# Double-precision numbers, exactly

A finite double is a sign and a magnitude `mantissa * 2 ^ exponent` with natural mantissa.  All
arithmetic is on naturals: a result is an exact quotient of naturals, rounded once to the nearest
double, an exact half going to the even mantissa.

* `Magnitude.round?`: the nearest magnitude to a quotient, or none when it is out of range.
* `Magnitude.times?`, `Magnitude.quotient`: one product or quotient, rounded.
* `Magnitude.ofScaled?`: a whole number times a power of ten, in steps of at most `10 ^ 308`.
-/

namespace Pipewright.Numeral

/-- The size of a finite double: `mantissa * 2 ^ exponent`. -/
structure Magnitude where
  mantissa : Nat
  exponent : Int
deriving DecidableEq, Repr, Inhabited

/-- A finite double: a sign and a size.  Zero has a sign too. -/
structure Double where
  negative : Bool
  magnitude : Magnitude
deriving DecidableEq, Repr, Inhabited

namespace Magnitude

/-- The least exponent of a double, that of the subnormal numbers. -/
def minExponent : Int := -1074

/-- The greatest exponent of a double. -/
def maxExponent : Int := 971

/-- The least mantissa of a normal double; there is room for one binary digit more above it. -/
def leastNormal : Nat := 1 <<< 52

/-- The magnitude zero. -/
def zero : Magnitude := ⟨0, minExponent⟩

/-- A magnitude is zero when its mantissa is. -/
def isZero (x : Magnitude) : Bool := x.mantissa == 0

/-- The numerator of the magnitude as a quotient of naturals. -/
def num (x : Magnitude) : Nat := x.mantissa <<< x.exponent.toNat

/-- The denominator of the magnitude as a quotient of naturals. -/
def den (x : Magnitude) : Nat := 1 <<< (-x.exponent).toNat

/-- The quotient `num / den` in units of `2 ^ exponent`, as a quotient of naturals again. -/
def inUnits (num den : Nat) (exponent : Int) : Nat × Nat :=
  (num <<< (-exponent).toNat, den <<< exponent.toNat)

/-- The whole number nearest to `num / den`; an exact half goes to the even one. -/
def nearest (num den : Nat) : Nat :=
  let q := num / den
  let twice := 2 * (num % den)
  if twice > den || (twice == den && q % 2 == 1) then q + 1 else q

/-- The exponent at which `num / den` has fifty-three binary digits before the point, or the
least exponent when that is greater. -/
def exponentFor (num den : Nat) : Int :=
  let guess : Int := Int.ofNat num.log2 - Int.ofNat den.log2 - 52
  let (n, d) := inUnits num den guess
  max minExponent (if n < leastNormal * d then guess - 1 else guess)

/-- The magnitude nearest to `num / den`, or none when the nearest is beyond the greatest double. -/
def round? (num den : Nat) : Option Magnitude :=
  if num = 0 then some zero
  else
    let e := exponentFor num den
    let (n, d) := inUnits num den e
    let m := nearest n d
    let x : Magnitude := if m = 2 * leastNormal then ⟨leastNormal, e + 1⟩ else ⟨m, e⟩
    if x.exponent ≤ maxExponent then some x else none

/-- A whole number as a double.  Whole numbers of up to 64 binary digits are within range. -/
def ofNat (n : Nat) : Magnitude :=
  (round? n 1).getD zero

/-- A product, rounded once; none when it is out of range. -/
def times? (x y : Magnitude) : Option Magnitude :=
  round? (x.num * y.num) (x.den * y.den)

/-- A quotient by a power of ten, rounded once. -/
def quotient (x y : Magnitude) : Magnitude :=
  (round? (x.num * y.den) (x.den * y.num)).getD zero

/-- The greatest power of ten within the range of doubles. -/
def maxPower : Nat := 308

/-- A power of ten as a double. -/
def power (k : Nat) : Magnitude := ofNat (Nat.pow 10 k)

/-- A magnitude divided by `10 ^ k`, in steps of at most `10 ^ 308` that are each rounded. -/
def scaleDown (x : Magnitude) (k : Nat) : Magnitude :=
  if k ≤ maxPower then x.quotient (power k)
  else if x.isZero then x
  else scaleDown (x.quotient (power maxPower)) (k - maxPower)
termination_by k
decreasing_by simp only [maxPower] at *; omega

/-- A magnitude multiplied by `10 ^ k`; none when the result is out of range. -/
def scaleUp? (x : Magnitude) (k : Nat) : Option Magnitude :=
  if k ≤ maxPower then x.times? (power k)
  else if x.isZero then some x
  else none

/-- The double of `significand * 10 ^ exponent`: the significand is rounded to a double and then
scaled.  None when the result is out of range. -/
def ofScaled? (significand : Nat) (exponent : Int) : Option Magnitude :=
  if 0 ≤ exponent then (ofNat significand).scaleUp? exponent.toNat
  else some ((ofNat significand).scaleDown (-exponent).toNat)

end Magnitude

end Pipewright.Numeral

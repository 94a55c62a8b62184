import Pipewright.Numeral.Double

/-!
# The shortest decimal that reads back

Between a double and its two neighbours lies the interval of reals that round to it; its ends
belong to it when the mantissa is even.  A double is written with the fewest decimal digits that
name a real of the interval, and among those with the real nearest to it; an exact tie goes to
the even last digit.

* `Magnitude.roundsBack`: a decimal lies in the interval of a magnitude.
* `Magnitude.shortest`: the decimal that is written.
-/

namespace Pipewright.Numeral

/-- The decimal number `digits * 10 ^ exponent`. -/
structure Decimal where
  digits : Nat
  exponent : Int
deriving DecidableEq, Repr, Inhabited

namespace Decimal

/-- The numerator of the decimal as a quotient of naturals. -/
def num (d : Decimal) : Nat := d.digits * Nat.pow 10 d.exponent.toNat

/-- The denominator of the decimal as a quotient of naturals. -/
def den (d : Decimal) : Nat := Nat.pow 10 (-d.exponent).toNat

end Decimal

namespace Magnitude

/-- The distance from the lower end of the interval to the magnitude, in quarters of a unit of
the mantissa: half a unit, but a quarter just above a power of two. -/
def gapBelow (x : Magnitude) : Nat :=
  if x.mantissa = leastNormal ∧ x.exponent ≠ minExponent then 1 else 2

/-- The decimal lies in the interval of reals that round to the magnitude. -/
def roundsBack (x : Magnitude) (d : Decimal) : Bool :=
  let here := d.num * (4 * x.den)
  let low := ((4 * x.mantissa - x.gapBelow) <<< x.exponent.toNat) * d.den
  let high := ((4 * x.mantissa + 2) <<< x.exponent.toNat) * d.den
  if x.mantissa % 2 = 0 then low ≤ here && here ≤ high else low < here && here < high

/-- The distance of a decimal from the magnitude, times a factor that depends on the exponents
alone. -/
def distance (x : Magnitude) (d : Decimal) : Nat :=
  let a := d.num * x.den
  let b := x.num * d.den
  (a - b) + (b - a)

/-- The power of ten of the leading digit of `num / den`. -/
def leadingPlace (num den : Nat) : Int :=
  if den ≤ num then Int.ofNat (Nat.toDigits 10 (num / den)).length - 1
  else -Int.ofNat (Nat.toDigits 10 ((den - 1) / num)).length

/-- The decimal one step above on the grid of decimals with `count` digits.  Above the greatest
of them stands a power of ten, and the grid gets coarser. -/
def nextOnGrid (d : Decimal) (count : Nat) : Decimal :=
  if d.digits + 1 = Nat.pow 10 count then ⟨Nat.pow 10 (count - 1), d.exponent + 1⟩
  else ⟨d.digits + 1, d.exponent⟩

/-- The two decimals with `count` digits that stand around the magnitude. -/
def neighbours (x : Magnitude) (count : Nat) : Decimal × Decimal :=
  let place := leadingPlace x.num x.den - Int.ofNat count + 1
  let below : Decimal := ⟨x.num * Nat.pow 10 (-place).toNat / (x.den * Nat.pow 10 place.toNat), place⟩
  (below, nextOnGrid below count)

/-- The nearer of two adjacent decimals; an exact tie goes to the even one. -/
def nearer (x : Magnitude) (a b : Decimal) : Decimal :=
  let p := x.distance a
  let q := x.distance b
  if p < q || (p == q && a.digits % 2 == 0) then a else b

/-- The decimal with `count` digits that is written, if one of that many digits reads back. -/
def withDigits? (x : Magnitude) (count : Nat) : Option Decimal :=
  let (a, b) := x.neighbours count
  match x.roundsBack a, x.roundsBack b with
  | true, true => some (x.nearer a b)
  | true, false => some a
  | false, true => some b
  | false, false => none

/-- The decimal with the fewest digits that reads back; seventeen digits always do. -/
def shortest (x : Magnitude) : Decimal :=
  ((List.range 17).findSome? fun n => x.withDigits? (n + 1)).getD
    (x.nearer (x.neighbours 17).1 (x.neighbours 17).2)

end Magnitude

end Pipewright.Numeral

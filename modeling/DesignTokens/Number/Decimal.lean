import DesignTokens.Number.Shape

/-!
# Decimal numbers

A `Decimal` is `coefficient · 10 ^ exponent`.  `Decimal.toFloat` reads it as the nearest double, and
depends on the number alone, not on how it is split into coefficient and exponent: trailing zeros of
the coefficient are stripped first.  `Decimal.exact` is the decimal equal to a dyadic number.

`Decimal.shortest` is the decimal with the fewest digits that reads back as a given double, and the
nearest of those.  For one digit, two digits and so on the two neighbours of the double on that
decimal grid are tried; a neighbour is accepted when it reads back as the double.
-/

namespace DesignTokens

/-- The number `coefficient · 10 ^ exponent`. -/
structure Decimal where
  coefficient : Nat
  exponent : Int
deriving DecidableEq, Repr

namespace Decimal

/-- Moves at most `fuel` trailing zeros from the coefficient to the exponent. -/
def stripZeros : (fuel : Nat) → Nat → Int → Decimal
  | 0, c, e => ⟨c, e⟩
  | fuel + 1, c, e => if c % 10 = 0 then stripZeros fuel (c / 10) (e + 1) else ⟨c, e⟩

/-- The same number with no trailing zero in the coefficient; zero is `0 · 10 ^ 0`. -/
def normalize (d : Decimal) : Decimal :=
  if d.coefficient = 0 then ⟨0, 0⟩ else stripZeros d.coefficient.log2 d.coefficient d.exponent

/-- The double nearest to a decimal, ties to even. -/
def toFloat (d : Decimal) : Float :=
  let n := d.normalize
  Float.ofScientific n.coefficient (n.exponent < 0) n.exponent.natAbs

/-- The decimal equal to `significand · 2 ^ exponent`: a factor `2 ^ -k` is `5 ^ k · 10 ^ -k`. -/
def exact (significand : Nat) (exponent : Int) : Decimal :=
  ⟨significand * Nat.pow 2 exponent.toNat * Nat.pow 5 (-exponent).toNat, min exponent 0⟩

/-- The decimal digits of the coefficient. -/
def digits (d : Decimal) : List Char :=
  Nat.toDigits 10 d.coefficient

/-- The number written by the digits `whole` before the point and `fraction` after it, times
`10 ^ exponent`. -/
def ofDigits (whole fraction : List Char) (exponent : Int) : Decimal :=
  ⟨Nat.ofDigitChars 10 (whole ++ fraction) 0, exponent - fraction.length⟩

/-! ### The shortest decimal that reads back -/

open Number

/-- The place of the first digit of `n / d`: the least `p` with `n / d < 10 ^ p`. -/
def leadingPlace (n d : Nat) : Int :=
  let a := (Nat.toDigits 10 n).length
  let b := (Nat.toDigits 10 d).length
  let p : Int := (a : Int) - b
  if d * Nat.pow 10 p.toNat ≤ n * Nat.pow 10 (-p).toNat then p + 1 else p

/-- The neighbours of `n / d` on the grid of multiples of `10 ^ unit`, as the lower coefficient and
what the division leaves over. -/
structure Neighbours where
  lower : Nat
  left : Nat
  divisor : Nat

/-- The division that places `n / d` on the grid of multiples of `10 ^ unit`. -/
def neighbours (n d : Nat) (unit : Int) : Neighbours :=
  let n := n * Nat.pow 10 (-unit).toNat
  let d := d * Nat.pow 10 unit.toNat
  ⟨n / d, n % d, d⟩

/-- The decimal of `length` digits that reads back as `x`, if one of the two neighbours does; of two
the nearer, an exact tie as `tie` says. -/
def ofLength (tie : Tie) (x : Float) (n d : Nat) (length : Nat) : Option Decimal :=
  let unit := leadingPlace n d - length
  let grid := neighbours n d unit
  let low : Decimal := ⟨grid.lower, unit⟩
  let high : Decimal := ⟨grid.lower + 1, unit⟩
  let preferHigh := tie.roundsUp grid.lower grid.left grid.divisor
  let first := if preferHigh then high else low
  let second := if preferHigh then low else high
  if first.toFloat = x then some first
  else if second.toFloat = x then some second
  else none

/-- 17 digits identify a double. -/
def maxLength : Nat := 17

/-- The shortest decimal that reads back as `x`, whose exact value is `significand · 2 ^ exponent`;
its exact decimal if none of up to `maxLength` digits does. -/
def shortest (tie : Tie) (x : Float) (significand : Nat) (exponent : Int) : Decimal :=
  let n := numerator significand exponent
  let d := denominator exponent
  let found := (List.range maxLength).findSome? fun k => ofLength tie x n d (k + 1)
  (found.getD (exact significand exponent)).normalize

end Decimal

end DesignTokens

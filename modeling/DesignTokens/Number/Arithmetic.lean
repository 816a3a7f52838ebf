import DesignTokens.Number.Shape

/-!
# Arithmetic beyond the four operations

The remainder of two doubles, its representative in `[0, m)`, the nearest integer with halves away
from zero, integer powers by repeated squaring, and rounding to a number of decimal places.  The
remainder is exact; the others round as their formulas in doubles say.  Repeated squaring is generic
in the number type, so that it can be used over `Float` and over `ℚ`.

`Number.pow x y` is the double nearest to `x ^ y` for a positive `x`.  It is computed as
`exp (y · log x)` in integers scaled by `2 ^ precision`: the logarithm by the series of `artanh`,
the exponential by its power series after a multiple of `log 2` has been subtracted.  The working
precision is more than twice that of a double.
-/

namespace DesignTokens.Number

/-- NaN. -/
def nan : Float := 0.0 / 0.0

/-- `x - m · trunc (x / m)`: exact, with the sign of `x`. -/
def remainder (x m : Float) : Float :=
  match shape x, shape m with
  | .finite negative s e, .finite _ s' e' =>
    if s' = 0 then nan
    else
      let least := min e e'
      ofDyadic negative (scaleTo s e least % scaleTo s' e' least) least
  | .finite .., .infinite _ => x
  | _, _ => nan

/-- The remainder moved into `[0, m]` by one addition of `m`.  The sum of a tiny negative remainder
and `m` can round to `m` itself. -/
def wrap (x m : Float) : Float :=
  let r := remainder x m
  if r < 0.0 then r + m else r

/-- The integer nearest to `x`, ties away from zero. -/
def nearestWhole (x : Float) : Float :=
  match shape x with
  | .finite negative s e =>
    if e < 0 then ofNatural negative (roundDiv .up s (denominator e)) else x
  | _ => x

/-- `acc · x ^ n` by repeated squaring: one round for each binary digit of `n`, the least
significant one first.  `digits` bounds the number of rounds. -/
def powerLoop {α : Type} [Mul α] : (digits : Nat) → (acc x : α) → (n : Nat) → α
  | 0, acc, _, _ => acc
  | digits + 1, acc, x, n =>
    let acc := if n % 2 = 1 then acc * x else acc
    if n / 2 = 0 then acc else powerLoop digits acc (x * x) (n / 2)

/-- `x ^ n` by repeated squaring. -/
def powNat {α : Type} [Mul α] [OfScientific α] (x : α) (n : Nat) : α :=
  powerLoop (n.log2 + 1) 1.0 x n

/-- `x ^ n`: a negative power is the reciprocal of the positive one. -/
def powInt {α : Type} [Mul α] [Div α] [OfScientific α] (x : α) (n : Int) : α :=
  let p := powNat x n.natAbs
  if n < 0 then 1.0 / p else p

/-- `x` rounded to a number of decimal places, by scaling with a power of ten and back. -/
def roundTo (x : Float) (places : Int) : Float :=
  let factor : Float := powInt 10.0 places
  nearestWhole (x * factor) / factor

/-- `x` brought into `[low, high]`. -/
def clamp (low high x : Float) : Float :=
  if x < low then low else if high < x then high else x

/-- `x`, or `0` if `x` is NaN or infinite. -/
def finiteOrZero (x : Float) : Float :=
  if x.isFinite then x else 0.0

/-! ### Powers with a fractional exponent -/

/-- Binary places kept in the series. -/
def precision : Nat := 128

/-- `2 ^ precision`, the scale of the fixed-point numbers below. -/
def one : Int := Nat.pow 2 precision

/-- `t + t³/3 + t⁵/5 + …`, with `t` and the sum scaled by `one`. -/
def atanhSeries (terms : Nat) (t : Int) : Int :=
  let square := t * t / one
  let step := fun (state : Int × Int) (k : Nat) =>
    (state.1 * square / one, state.2 + state.1 / (2 * k + 1))
  ((List.range terms).foldl step (t, 0)).2

/-- `log 2`, scaled. -/
def logTwo : Int :=
  2 * atanhSeries 42 (one / 3)

/-- The logarithm of `significand · 2 ^ exponent`, scaled: the significand is divided by its leading
power of two, which leaves a number in `[1, 2)`. -/
def logScaled (significand : Nat) (exponent : Int) : Int :=
  let lead := significand.log2
  let fraction : Int := (significand : Int) * one / Nat.pow 2 lead
  2 * atanhSeries 42 ((fraction - one) * one / (fraction + one)) + (exponent + lead) * logTwo

/-- `1 + t + t²/2 + t³/6 + …`, with `t` and the sum scaled by `one`. -/
def expSeries (terms : Nat) (t : Int) : Int :=
  let step := fun (state : Int × Int) (k : Nat) =>
    (state.1 * t / one / (k + 1), state.2 + state.1)
  ((List.range terms).foldl step (one, 0)).2

/-- The double nearest to `exp t`, with `t` scaled by `one`. -/
def expScaled (t : Int) : Float :=
  let whole := t / logTwo
  ofDyadic false (expSeries 36 (t - whole * logTwo)).toNat (whole - precision)

/-- The double nearest to `x ^ y` for `0 < x`; NaN for `x < 0`. -/
def pow (x y : Float) : Float :=
  match shape x, shape y with
  | .finite false s e, .finite negative s' e' =>
    if s = 0 then (if s' = 0 then 1.0 else if negative then 1.0 / 0.0 else 0.0)
    else
      let magnitude := logScaled s e * s' * Nat.pow 2 e'.toNat / Nat.pow 2 (-e').toNat
      expScaled (if negative then -magnitude else magnitude)
  | _, _ => 0.0 / 0.0

end DesignTokens.Number

/-!
# The exact value of a double

`Number.shape` unpacks a double into `NaN`, `±∞` or `± significand · 2 ^ exponent`, and
`Number.ofDyadic` rounds such a number to the nearest double.  Everything in the library that needs
more than the four operations and the comparisons (remainders, rounding to an integer, decimal text)
is computed on the exact value in between.  `Number.roundDiv` rounds a quotient of natural numbers
to the nearest integer; where an exact half goes is left to the caller.
-/

namespace DesignTokens.Number

open Float.Model

/-- NaN, `±∞`, or `± significand · 2 ^ exponent`. -/
inductive Shape where
  | nan
  | infinite (negative : Bool)
  | finite (negative : Bool) (significand : Nat) (exponent : Int)
deriving DecidableEq, Repr

/-- The exact value of a double.  Both zeros have significand `0` and exponent `0`. -/
def shape (x : Float) : Shape :=
  match x.toModel.unpack with
  | .notANumber => .nan
  | .infinity sign => .infinite (sign == .negative)
  | .zero sign => .finite (sign == .negative) 0 0
  | .finite sign significand exponent _ => .finite (sign == .negative) significand exponent

/-- The sign of a double. -/
def signOf (negative : Bool) : UnpackedFloat.Sign :=
  if negative then .negative else .positive

/-- The double nearest to `± significand · 2 ^ exponent`, ties to even. -/
def ofDyadic (negative : Bool) (significand : Nat) (exponent : Int) : Float :=
  if significand = 0 then .ofModel (.pack (.zero (signOf negative)))
  else .ofModel (.pack (UnpackedFloat.round .binary64 (signOf negative) significand exponent))

/-- The double nearest to `± n`. -/
def ofNatural (negative : Bool) (n : Nat) : Float :=
  ofDyadic negative n 0

/-- The significand of `significand · 2 ^ exponent` when it is written with the exponent `target`,
which is not above `exponent`. -/
def scaleTo (significand : Nat) (exponent target : Int) : Nat :=
  significand * Nat.pow 2 (exponent - target).toNat

/-- The numerator of `significand · 2 ^ exponent` over a power of two. -/
def numerator (significand : Nat) (exponent : Int) : Nat :=
  significand * Nat.pow 2 exponent.toNat

/-- The power of two under `numerator`. -/
def denominator (exponent : Int) : Nat :=
  Nat.pow 2 (-exponent).toNat

/-! ### Rounding a quotient -/

/-- Where an exact half goes. -/
inductive Tie where
  | even
  | up
deriving DecidableEq, Repr

/-- Whether the remainder `r` of a division by `d` with quotient `q` rounds the quotient up. -/
def Tie.roundsUp (tie : Tie) (q r d : Nat) : Bool :=
  match compare (2 * r) d with
  | .lt => false
  | .gt => true
  | .eq =>
    match tie with
    | .even => q % 2 == 1
    | .up => true

/-- The integer nearest to `n / d`. -/
def roundDiv (tie : Tie) (n d : Nat) : Nat :=
  let q := n / d
  if tie.roundsUp q (n % d) d then q + 1 else q

end DesignTokens.Number

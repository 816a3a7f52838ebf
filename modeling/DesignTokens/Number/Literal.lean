import DesignTokens.Number.Decimal

/-!
# Reading decimal literals

`Number.read?` accepts an optional sign and then `inf`, `infinity` or `nan` in any case of letters,
or digits with at most one point and an optional exponent.  The value is the nearest double: a
literal that overflows is `±∞`, one that underflows is `±0`.
-/

namespace DesignTokens.Number

/-- The digits at the front of a text, and the rest. -/
def spanDigits (cs : List Char) : List Char × List Char :=
  (cs.takeWhile Char.isDigit, cs.dropWhile Char.isDigit)

/-- A sign at the front of a text, and the rest. -/
def spanSign : List Char → Bool × List Char
  | '-' :: cs => (true, cs)
  | '+' :: cs => (false, cs)
  | cs => (false, cs)

/-- A natural number with a sign. -/
def withSign (negative : Bool) (n : Nat) : Int :=
  if negative then -(n : Int) else n

/-- An integer: an optional sign and digits. -/
def readInt? (cs : List Char) : Option Int :=
  let (negative, cs) := spanSign cs
  match spanDigits cs with
  | ([], _) => none
  | (ds, []) => some (withSign negative (Nat.ofDigitChars 10 ds 0))
  | (_, _ :: _) => none

/-- The exponent of a literal: nothing, or `e` or `E` and an integer to the end. -/
def readExponent? : List Char → Option Int
  | [] => some 0
  | 'e' :: cs => readInt? cs
  | 'E' :: cs => readInt? cs
  | _ :: _ => none

/-- The digits after the decimal point, if there is one. -/
def spanFraction : List Char → List Char × List Char
  | '.' :: cs => spanDigits cs
  | cs => ([], cs)

/-- An unsigned literal of digits. -/
def readDecimal? (cs : List Char) : Option Decimal :=
  let (whole, cs) := spanDigits cs
  let (fraction, cs) := spanFraction cs
  match whole ++ fraction with
  | [] => none
  | _ :: _ => (readExponent? cs).map (Decimal.ofDigits whole fraction)

/-- An unsigned literal: `inf`, `infinity`, `nan` or digits. -/
def readMagnitude? (cs : List Char) : Option Float :=
  let word := String.ofList (cs.map Char.toLower)
  if word = "inf" ∨ word = "infinity" then some (1.0 / 0.0)
  else if word = "nan" then some (0.0 / 0.0)
  else (readDecimal? cs).map Decimal.toFloat

/-- Negates a double if asked to. -/
def negateIf (negative : Bool) (x : Float) : Float :=
  if negative then -x else x

/-- The double that a decimal literal names. -/
def read? (text : String) : Option Float :=
  let (negative, cs) := spanSign text.toList
  (readMagnitude? cs).map (negateIf negative)

end DesignTokens.Number

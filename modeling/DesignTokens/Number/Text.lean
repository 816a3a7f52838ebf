import DesignTokens.Number.Decimal

/-!
# Numbers as text

`Decimal.positional` writes a decimal without an exponent and `Decimal.scientific` with one.
`Number.plain` is the form used in running text: the shortest decimal, never an exponent, no
fraction for an integer.  `Number.fixed` writes the exact value of a double with a given number of
places.
-/

namespace DesignTokens

namespace Decimal

/-- A decimal without an exponent: zeros are appended, a point is put between the digits, or zeros
are put in front of them. -/
def positional (d : Decimal) : List Char :=
  let ds := d.digits
  let places := (-d.exponent).toNat
  if places = 0 then ds ++ List.replicate d.exponent.toNat '0'
  else if places < ds.length then
    ds.take (ds.length - places) ++ '.' :: ds.drop (ds.length - places)
  else '0' :: '.' :: (List.replicate (places - ds.length) '0' ++ ds)

/-- The exponent of ten of the first digit. -/
def magnitude (d : Decimal) : Int :=
  d.exponent + d.digits.length - 1

/-- A decimal with one digit before the point and a signed exponent; the point only before more
digits. -/
def scientific (d : Decimal) : List Char :=
  let mantissa :=
    match d.digits with
    | first :: second :: rest => first :: '.' :: second :: rest
    | ds => ds
  let sign := if d.magnitude < 0 then '-' else '+'
  mantissa ++ 'e' :: sign :: Nat.toDigits 10 d.magnitude.natAbs

end Decimal

namespace Number

/-- Puts a minus sign in front. -/
def signed (negative : Bool) (text : List Char) : List Char :=
  if negative then '-' :: text else text

/-- How doubles are written: the text of NaN, the tie rule of the shortest digits, and the layout of
a magnitude. -/
structure Style where
  nan : String
  tie : Tie
  layout : Decimal → List Char

/-- The text of a double in a style; `±∞` is `inf` or `-inf` in every style. -/
def Style.write (style : Style) (x : Float) : String :=
  match shape x with
  | .nan => style.nan
  | .infinite negative => String.ofList (signed negative "inf".toList)
  | .finite negative 0 _ => String.ofList (signed negative (style.layout ⟨0, 0⟩))
  | .finite negative s e =>
    let magnitude := ofDyadic false s e
    String.ofList (signed negative (style.layout (Decimal.shortest style.tie magnitude s e)))

/-- Numbers in running text have no exponent, no superfluous fraction, and break a tie upward. -/
def plainStyle : Style where
  nan := "NaN"
  tie := .up
  layout := Decimal.positional

/-- A double in running text. -/
def plain (x : Float) : String :=
  plainStyle.write x

/-- `n · 10 ^ -places`, with its decimal point. -/
def withPlaces (places n : Nat) : List Char :=
  let ds := Nat.toDigits 10 n
  let ds := List.replicate (places + 1 - ds.length) '0' ++ ds
  if places = 0 then ds
  else ds.take (ds.length - places) ++ '.' :: ds.drop (ds.length - places)

/-- A double with a fixed number of decimal places: its exact value rounded, ties to even, with the
sign bit kept (`-0.00`). -/
def fixed (places : Nat) (x : Float) : String :=
  match shape x with
  | .nan => "NaN"
  | .infinite negative => String.ofList (signed negative "inf".toList)
  | .finite negative s e =>
    let units := roundDiv .even (numerator s e * Nat.pow 10 places) (denominator e)
    String.ofList (signed negative (withPlaces places units))

end Number

end DesignTokens

import DesignTokens.Fault
import DesignTokens.Text.Basic

/-!
# Colours of three bytes

`Rgb` is a colour of the sRGB model with eight bits for each channel.  It is read from six
hexadecimal digits of either case behind at most one `#` (`Rgb.ofHex`) and written with a `#` and
lower-case digits (`Rgb.toHex`).
-/

namespace DesignTokens

/-- A colour with a byte for each of red, green and blue. -/
structure Rgb where
  r : UInt8
  g : UInt8
  b : UInt8
deriving DecidableEq, Repr

namespace Rgb

/-- All channels at zero. -/
def black : Rgb := ⟨0, 0, 0⟩

/-- All channels at 255. -/
def white : Rgb := ⟨255, 255, 255⟩

/-- A colour that is not given is white. -/
instance : Inhabited Rgb := ⟨white⟩

/-! ### Hexadecimal text -/

/-- Drops one leading `#`. -/
def dropMark : List Char → List Char
  | '#' :: cs => cs
  | cs => cs

/-- `16 · high + low`. -/
def ofDigits (high low : Nat) : UInt8 :=
  UInt8.ofNat (16 * high + low)

/-- Parses `#RRGGBB` or `RRGGBB`.  The length is checked first, in bytes of UTF-8. -/
def ofHex (input : String) : Except Fault Rgb :=
  let cs := dropMark input.toList
  if (String.ofList cs).utf8ByteSize ≠ 6 then .error (.colorLength input)
  else
    match cs.mapM Text.hexDigit? with
    | some [r, r', g, g', b, b'] => .ok ⟨ofDigits r r', ofDigits g g', ofDigits b b'⟩
    | _ => .error (.colorDigit input)

/-- A byte as two lower-case hexadecimal digits. -/
def byteDigits (byte : UInt8) : List Char :=
  [Nat.digitChar (byte.toNat / 16), Nat.digitChar (byte.toNat % 16)]

/-- `#rrggbb`. -/
def toHex (color : Rgb) : String :=
  String.ofList ('#' :: (byteDigits color.r ++ byteDigits color.g ++ byteDigits color.b))

/-- `rgb(r, g, b)`. -/
def toCss (color : Rgb) : String :=
  s!"rgb({color.r}, {color.g}, {color.b})"

/-! ### Moving a colour -/

/-- Applies a map to every channel. -/
def map (f : UInt8 → UInt8) (color : Rgb) : Rgb :=
  ⟨f color.r, f color.g, f color.b⟩

/-- Every channel lowered by an amount, saturating at 0. -/
def darken (amount : Nat) (color : Rgb) : Rgb :=
  color.map fun c => UInt8.ofNat (c.toNat - amount)

/-- Every channel raised by an amount, saturating at 255. -/
def lighten (amount : Nat) (color : Rgb) : Rgb :=
  color.map fun c => UInt8.ofNat (min 255 (c.toNat + amount))

/-! ### Order -/

/-- The key of the lexicographic order by red, green, blue. -/
def rank (color : Rgb) : Nat :=
  (color.r.toNat * 256 + color.g.toNat) * 256 + color.b.toNat

/-- Puts a colour into an ascending list, unless it is there. -/
def insertDistinct (color : Rgb) : List Rgb → List Rgb
  | [] => [color]
  | first :: rest =>
    if color.rank < first.rank then color :: first :: rest
    else if color = first then first :: rest
    else first :: insertDistinct color rest

/-- The colours of a list in ascending order, each once. -/
def sortDistinct (colors : List Rgb) : List Rgb :=
  colors.foldr insertDistinct []

end Rgb

end DesignTokens

import DesignTokens.Color.Rgb
import DesignTokens.Number.Arithmetic

/-!
# Hue, saturation and lightness

`Hsl` is a colour as a hue in degrees and two percentages.  `Hsl.toRgb` wraps the hue, clamps the
percentages and rounds each channel to a byte; `Rgb.toHsl` goes the other way, with hue and
saturation zero for greys.  The formula of a channel and of its position on the colour wheel is
generic in the number type, so that the same definition is used over `Float` and over `ℚ`.
-/

namespace DesignTokens

open Number

/-- A colour by hue (degrees), saturation and lightness (percent). -/
structure Hsl where
  h : Float
  s : Float
  l : Float
deriving DecidableEq

namespace Hsl

/-! ### The formula of a channel -/

section Formula

variable {α : Type} [Add α] [Sub α] [Mul α] [Div α] [Neg α] [Min α] [Max α]
variable [OfNat α 1] [OfNat α 3] [OfNat α 9] [OfNat α 12] [OfNat α 30]
variable (modulo : α → α → α)

/-- `k = (start + hue / 30) mod 12`, the position of a channel on the colour wheel in twelfths. -/
def position (start hue : α) : α :=
  modulo (start + hue / 30) 12

/-- `max (min (k - 3) (9 - k) 1) (-1)`: how far the channel at position `k` stands below the
lightness. -/
def depth (k : α) : α :=
  max (min (min (k - 3) (9 - k)) 1) (-1)

/-- `s · min l (1 - l)`, half of the chroma. -/
def spread (s l : α) : α :=
  s * min l (1 - l)

/-- `l - a · depth k`, for lightness `l` and half chroma `a`. -/
def channelValue (l a k : α) : α :=
  l - a * depth k

/-- The channel that starts at `start`, for a hue in degrees and for saturation and lightness in
`[0, 1]`. -/
def channel (hue s l start : α) : α :=
  channelValue l (spread s l) (position modulo start hue)

/-- Red, green and blue start at 0, 8 and 4 twelfths of the colour wheel. -/
def channels [OfScientific α] (hue s l : α) : α × α × α :=
  (channel modulo hue s l 0.0, channel modulo hue s l 8.0, channel modulo hue s l 4.0)

end Formula

/-- A percentage as a fraction. -/
def ofPercent {α : Type} [Div α] [OfScientific α] (percent : α) : α :=
  percent / 100.0

/-- A channel value in `[0, 1]` as a byte. -/
def toByte (value : Float) : UInt8 :=
  (clamp 0.0 255.0 (nearestWhole (value * 255.0))).toUInt8

/-- A percentage as a fraction in `[0, 1]`. -/
def fraction (percent : Float) : Float :=
  ofPercent (clamp 0.0 100.0 (finiteOrZero percent))

/-- The nearest colour of three bytes.  A component that is not finite counts as zero. -/
def toRgb (color : Hsl) : Rgb :=
  let hue := wrap (finiteOrZero color.h) 360.0
  let rgb := channels remainder hue (fraction color.s) (fraction color.l)
  ⟨toByte rgb.1, toByte rgb.2.1, toByte rgb.2.2⟩

/-- The components in running text. -/
def toText (color : Hsl) : String :=
  s!"hsl({plain color.h}, {plain color.s}%, {plain color.l}%)"

end Hsl

namespace Rgb

/-- The hue of channels in `[0, 1]` whose greatest is `greatest` and whose range is `delta`. -/
def hue (r g b greatest delta : Float) : Float :=
  if greatest == r then 60.0 * wrap ((g - b) / delta) 6.0
  else if greatest == g then 60.0 * ((b - r) / delta + 2.0)
  else 60.0 * ((r - g) / delta + 4.0)

/-- Hue, saturation and lightness of a colour. -/
def toHsl (color : Rgb) : Hsl :=
  let r := color.r.toFloat / 255.0
  let g := color.g.toFloat / 255.0
  let b := color.b.toFloat / 255.0
  let greatest := max (max r g) b
  let least := min (min r g) b
  let delta := greatest - least
  let l := (greatest + least) / 2.0
  if delta == 0.0 then ⟨0.0, 0.0, l * 100.0⟩
  else
    let s := delta / (1.0 - (2.0 * l - 1.0).abs)
    ⟨hue r g b greatest delta, s * 100.0, l * 100.0⟩

end Rgb

end DesignTokens

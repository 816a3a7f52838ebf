import DesignTokens.Color.Hsl
import DesignTokens.Contrast.Basic

/-!
# Shades and their curves

A palette has eleven shades, from the lightest, `50`, to the darkest, `950`.  The saturation and
lightness of a shade come from fixed curves; near-grey palettes have curves of their own.
-/

namespace DesignTokens

/-- Which curves a palette follows. -/
inductive PaletteKind where
  | chromatic
  | neutral
deriving DecidableEq, Repr

namespace PaletteKind

/-- The name of a kind. -/
def name : PaletteKind → String
  | chromatic => "chromatic"
  | neutral => "neutral"

/-- Only a palette named `neutral`, in any case of letters, is near-grey. -/
def ofPaletteName (paletteName : String) : PaletteKind :=
  if Text.sameIgnoringCase paletteName "neutral" then neutral else chromatic

end PaletteKind

namespace Shade

/-- The keys of the shades, the lightest first. -/
def keys : List Nat := [50, 100, 200, 300, 400, 500, 600, 700, 800, 900, 950]

/-- Lightness (percent) of the shades of a chromatic palette. -/
def lightness : List Float := [97.0, 94.0, 86.0, 74.0, 60.0, 48.0, 40.0, 32.0, 26.0, 22.0, 12.0]

/-- Saturation (percent) of the shades of a chromatic palette. -/
def saturation : List Float := [95.0, 90.0, 85.0, 80.0, 75.0, 70.0, 75.0, 80.0, 85.0, 90.0, 95.0]

/-- Lightness (percent) of the shades of a near-grey palette. -/
def neutralLightness : List Float :=
  [98.0, 96.0, 90.0, 83.0, 64.0, 45.0, 32.0, 25.0, 15.0, 9.0, 4.0]

/-- Saturation (percent) of every shade of a near-grey palette. -/
def neutralSaturation : Float := 5.0

/-- Saturation and lightness of the shades of a kind, in the order of `keys`. -/
def curve : PaletteKind → List (Float × Float)
  | .chromatic => saturation.zip lightness
  | .neutral => neutralLightness.map (neutralSaturation, ·)

end Shade

/-- A shade of a palette with its figures of contrast. -/
structure Shade where
  key : Nat
  color : Rgb
  hsl : Hsl
  luminance : Float
  onWhite : Float
  onBlack : Float
deriving DecidableEq

namespace Shade

/-- The shade of a hue, saturation and lightness. -/
def ofHsl (key : Nat) (hsl : Hsl) : Shade :=
  let color := hsl.toRgb
  let luminance := Contrast.luminance color
  { key, color, hsl, luminance
    onWhite := Contrast.ofLuminances luminance (Contrast.luminance .white)
    onBlack := Contrast.ofLuminances luminance (Contrast.luminance .black) }

/-- Whether normal text in this shade meets a level on white or on black. -/
def passes (shade : Shade) (level : Level) : Bool :=
  let required := level.requiredRatio false
  required ≤ shade.onWhite || required ≤ shade.onBlack

end Shade

end DesignTokens

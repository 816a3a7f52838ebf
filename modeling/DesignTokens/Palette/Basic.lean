import DesignTokens.Palette.Shade

/-!
# Palettes and token sets

A `Palette` holds the shades of one hue; `Palette.generate` makes it from any hue, which is reduced
to `[0, 360]` degrees.  A `TokenSet` groups the palettes of a colour system: `TokenSet.generate`
derives four of them from one hue.
-/

namespace DesignTokens

open Number

/-- The hue modulo 360; NaN and `±∞` become `0`. -/
def normalizeHue (hue : Float) : Float :=
  if hue.isFinite then wrap hue 360.0 else 0.0

/-- A named ramp of shades at one hue. -/
structure Palette where
  name : String
  kind : PaletteKind
  hue : Float
  shades : List Shade
deriving DecidableEq

namespace Palette

/-- The shades of a kind at a hue. -/
def ramp (kind : PaletteKind) (hue : Float) : List Shade :=
  (Shade.keys.zip (Shade.curve kind)).map fun (key, s, l) => Shade.ofHsl key ⟨hue, s, l⟩

/-- The palette of a hue; its name decides the kind. -/
def generate (baseHue : Float) (name : String) : Palette :=
  let hue := normalizeHue baseHue
  let kind := PaletteKind.ofPaletteName name
  { name, kind, hue, shades := ramp kind hue }

/-- The shade with a key. -/
def shade? (palette : Palette) (key : Nat) : Option Shade :=
  palette.shades.find? (·.key == key)

/-- Shade 500, or the middle one if there is none. -/
def primaryShade? (palette : Palette) : Option Shade :=
  match palette.shade? 500 with
  | some shade => some shade
  | none => palette.shades[palette.shades.length / 2]?

end Palette

/-- The palettes of a colour system, in the order of display. -/
structure TokenSet where
  baseHue : Float
  palettes : List Palette
deriving DecidableEq

namespace TokenSet

/-- The hue of the secondary palette, relative to the base hue. -/
def secondaryOffset : Float := 180.0

/-- The hue of the accent palette, relative to the base hue. -/
def accentOffset : Float := 45.0

/-- The palettes of a generated set, each with its hue at a base hue. -/
def members (hue : Float) : List (String × Float) :=
  [("primary", hue), ("secondary", hue + secondaryOffset), ("accent", hue + accentOffset),
    ("neutral", hue)]

/-- The names of the palettes of a generated set. -/
def names : List String :=
  (members 0.0).map Prod.fst

/-- The set of four palettes of a hue. -/
def generate (baseHue : Float) : TokenSet :=
  let hue := normalizeHue baseHue
  { baseHue := hue, palettes := (members hue).map fun (name, hue) => Palette.generate hue name }

/-- The set with a single palette. -/
def single (baseHue : Float) (name : String) : TokenSet :=
  { baseHue := normalizeHue baseHue, palettes := [Palette.generate baseHue name] }

/-- The first palette with a name. -/
def palette? (set : TokenSet) (name : String) : Option Palette :=
  set.palettes.find? (·.name == name)

end TokenSet

end DesignTokens

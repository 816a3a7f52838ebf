import DesignTokens.Json.Printer
import DesignTokens.Palette.Basic
import DesignTokens.Text.UpperCase

/-!
# Palettes for use elsewhere

A token set is written as indented JSON with rounded figures, as CSS custom properties, and as a
theme extension for Tailwind.
-/

namespace DesignTokens

open Number

namespace Shade

/-- A shade with rounded figures. -/
def view (shade : Shade) : Datum :=
  .table
    [ ("shade", .integer shade.key),
      ("hex", .text shade.color.toHex),
      ("rgb", .text shade.color.toCss),
      ("hsl", .text shade.hsl.toText),
      ("luminance", .float (roundTo shade.luminance 4)),
      ("contrast_on_white", .float (roundTo shade.onWhite 2)),
      ("contrast_on_black", .float (roundTo shade.onBlack 2)),
      ("passes_aa", .bool (shade.passes .aa)),
      ("passes_aaa", .bool (shade.passes .aaa)) ]

/-- The declaration of a shade as a custom property. -/
def declaration (paletteName : String) (shade : Shade) : String :=
  s!"  --color-{paletteName}-{shade.key}: {shade.color.toHex};\n"

end Shade

namespace Palette

/-- A palette with rounded figures. -/
def view (palette : Palette) : Datum :=
  .table
    [ ("name", .text palette.name),
      ("kind", .text palette.kind.name),
      ("hue", .float (roundTo palette.hue 2)),
      ("shades", .list (palette.shades.map Shade.view)) ]

/-- The declarations of a palette under a comment with its name. -/
def declarations (palette : Palette) : String :=
  s!"  /* {Text.capitalize palette.name} Palette */\n"
    ++ String.join (palette.shades.map (Shade.declaration palette.name)) ++ "\n"

/-- The colours of a palette by key. -/
def colorTable (palette : Palette) : Datum :=
  .table (Datum.collect
    (palette.shades.map fun shade => (toString shade.key, .text shade.color.toHex)))

end Palette

/-- A module that extends a theme. -/
def themeModule (extension : Datum) : String :=
  let theme : Datum := .table [("theme", .table [("extend", extension)])]
  s!"module.exports = {Json.pretty theme};\n"

namespace TokenSet

/-- A token set with rounded figures. -/
def view (set : TokenSet) : Datum :=
  .table
    [ ("base_hue", .float (roundTo set.baseHue 2)),
      ("palettes", .list (set.palettes.map Palette.view)) ]

/-- A token set as indented JSON. -/
def toJson (set : TokenSet) : String :=
  Json.pretty set.view

/-- A token set as a block of custom properties. -/
def toCss (set : TokenSet) : String :=
  ":root \x7b\n" ++ String.join (set.palettes.map Palette.declarations) ++ "\x7d\n"

/-- The colours of a token set by palette and key. -/
def colorTable (set : TokenSet) : Datum :=
  .table (Datum.collect (set.palettes.map fun palette => (palette.name, palette.colorTable)))

/-- A token set as a theme extension. -/
def toTailwind (set : TokenSet) : String :=
  themeModule (.table [("colors", set.colorTable)])

end TokenSet

end DesignTokens

import DesignTokens.Color.Hsl
import DesignTokens.Contrast.Checklist
import DesignTokens.Contrast.Suggestion
import DesignTokens.Datum
import DesignTokens.Palette.Basic
import DesignTokens.TypeScale.Basic

/-!
# Document forms

`toDatum` gives a value as a `Datum` with the unrounded numbers: a record is a table with its fields
in order, a constructor of an enumeration is its name, and a ratio is the name of its preset or its
number.  `ofDatum?` is the inverse for those that are read back.
-/

namespace DesignTokens

/-! ### Writing -/

/-- `{r, g, b}`. -/
def Rgb.toDatum (color : Rgb) : Datum :=
  .table [("r", .integer color.r.toNat), ("g", .integer color.g.toNat),
    ("b", .integer color.b.toNat)]

/-- `{h, s, l}`. -/
def Hsl.toDatum (color : Hsl) : Datum :=
  .table [("h", .float color.h), ("s", .float color.s), ("l", .float color.l)]

/-- The `Datum` of a level. -/
def Level.toDatum (level : Level) : Datum :=
  .text level.name

/-- The `Datum` of a direction. -/
def Direction.toDatum (direction : Direction) : Datum :=
  .text direction.name

/-- The `Datum` of a criterion. -/
def Criterion.toDatum (criterion : Criterion) : Datum :=
  .table [("level", criterion.level.toDatum), ("is_large_text", .bool criterion.large)]

/-- The `Datum` of a verdict. -/
def Verdict.toDatum (verdict : Verdict) : Datum :=
  .table
    [ ("ratio", .float verdict.ratio),
      ("required_ratio", .float verdict.required),
      ("passes", .bool verdict.passes),
      ("level", verdict.level.toDatum),
      ("is_large_text", .bool verdict.large) ]

/-- The `Datum` of a suggestion. -/
def Suggestion.toDatum (suggestion : Suggestion) : Datum :=
  .table
    [ ("color", suggestion.color.toDatum),
      ("ratio", .float suggestion.ratio),
      ("direction", suggestion.direction.toDatum) ]

/-- The `Datum` of a touch target. -/
def TouchTarget.toDatum (target : TouchTarget) : Datum :=
  .table
    [ ("width", .integer target.width),
      ("height", .integer target.height),
      ("min_required", .integer target.required),
      ("passes", .bool target.passes) ]

/-- The `Datum` of a shade. -/
def Shade.toDatum (shade : Shade) : Datum :=
  .table
    [ ("shade", .integer shade.key),
      ("color", shade.color.toDatum),
      ("hsl", shade.hsl.toDatum),
      ("luminance", .float shade.luminance),
      ("contrast_on_white", .float shade.onWhite),
      ("contrast_on_black", .float shade.onBlack) ]

/-- The `Datum` of a palette. -/
def Palette.toDatum (palette : Palette) : Datum :=
  .table
    [ ("name", .text palette.name),
      ("kind", .text palette.kind.name),
      ("hue", .float palette.hue),
      ("shades", .list (palette.shades.map Shade.toDatum)) ]

/-- The `Datum` of a token set. -/
def TokenSet.toDatum (set : TokenSet) : Datum :=
  .table
    [ ("base_hue", .float set.baseHue),
      ("palettes", .list (set.palettes.map Palette.toDatum)) ]

/-- The `Datum` of a ratio. -/
def Ratio.toDatum : Ratio → Datum
  | preset p => .text p.name
  | custom x => .float x

/-- The fields of the table of scale options. -/
def ScaleOptions.toFields (options : ScaleOptions) : List (String × Datum) :=
  [ ("base_size", .float options.baseSize),
    ("ratio", options.ratio.toDatum),
    ("min_viewport", .float options.minViewport),
    ("max_viewport", .float options.maxViewport),
    ("steps", .integers options.steps) ]

/-- The `Datum` of scale options. -/
def ScaleOptions.toDatum (options : ScaleOptions) : Datum :=
  .table options.toFields

/-- The four terms of a `clamp()` as a table. -/
def Clamp.toDatum (clamp : Clamp Float) : Datum :=
  .table
    [ ("min_rem", .float clamp.minRem),
      ("preferred_rem", .float clamp.preferredRem),
      ("preferred_vw", .float clamp.preferredVw),
      ("max_rem", .float clamp.maxRem) ]

/-- The `Datum` of a step. -/
def Step.toDatum (step : Step Float) : Datum :=
  .table
    [ ("step", .integer step.index),
      ("min_size_px", .float step.minSize),
      ("max_size_px", .float step.maxSize),
      ("clamp", step.clamp.toDatum) ]

/-- The `Datum` of a type scale. -/
def TypeScale.toDatum (scale : TypeScale) : Datum :=
  .table
    [ ("options", scale.options.toDatum),
      ("steps", .list (scale.steps.map Step.toDatum)) ]

/-! ### Reading -/

open Datum

/-- Reads a colour. -/
def Rgb.ofDatum? (dialect : Dialect) (datum : Datum) : Option Rgb := do
  let fields ← datum.toFields? dialect ["r", "g", "b"]
  let r ← required toByte? "r" fields
  let g ← required toByte? "g" fields
  let b ← required toByte? "b" fields
  return ⟨r, g, b⟩

/-- Reads a hue, saturation and lightness. -/
def Hsl.ofDatum? (dialect : Dialect) (datum : Datum) : Option Hsl := do
  let fields ← datum.toFields? dialect ["h", "s", "l"]
  let h ← required toFloat? "h" fields
  let s ← required toFloat? "s" fields
  let l ← required toFloat? "l" fields
  return ⟨h, s, l⟩

/-- Reads a level. -/
def Level.ofDatum? (dialect : Dialect) (datum : Datum) : Option Level :=
  (datum.toName? dialect).bind Level.ofName?

/-- Reads a direction. -/
def Direction.ofDatum? (dialect : Dialect) (datum : Datum) : Option Direction :=
  (datum.toName? dialect).bind Direction.ofName?

/-- Reads a criterion. -/
def Criterion.ofDatum? (dialect : Dialect) (datum : Datum) : Option Criterion := do
  let fields ← datum.toFields? dialect ["level", "is_large_text"]
  let level ← required (Level.ofDatum? dialect) "level" fields
  let large ← required toBool? "is_large_text" fields
  return { level, large }

/-- Reads a ratio: a number, or a string for `Ratio.parse`. -/
def Ratio.ofDatum? : Datum → Option Ratio
  | .text s => (Ratio.parse s).toOption
  | datum => datum.toFloat?.map .custom

/-- Reads scale options over the defaults. -/
def ScaleOptions.ofDatum? (dialect : Dialect) (datum : Datum) : Option ScaleOptions := do
  let default : ScaleOptions := {}
  let fields ← datum.toFields? dialect
    ["base_size", "ratio", "min_viewport", "max_viewport", "steps"]
  let baseSize ← withDefault default.baseSize toFloat? "base_size" fields
  let ratio ← withDefault default.ratio Ratio.ofDatum? "ratio" fields
  let minViewport ← withDefault default.minViewport toFloat? "min_viewport" fields
  let maxViewport ← withDefault default.maxViewport toFloat? "max_viewport" fields
  let steps ← withDefault default.steps (toList? toInt32?) "steps" fields
  return { baseSize, ratio, minViewport, maxViewport, steps }

end DesignTokens

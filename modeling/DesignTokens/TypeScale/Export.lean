import DesignTokens.Palette.Export
import DesignTokens.TypeScale.Basic

/-!
# Type scales for use elsewhere

A type scale is written as indented JSON with rounded sizes, as a style sheet, and as a theme
extension for Tailwind.
-/

namespace DesignTokens

open Number

namespace Step

/-- A step with rounded sizes. -/
def view (step : Step Float) : Datum :=
  .table
    [ ("step", .integer step.index),
      ("label", .text step.label),
      ("min_size_px", .float (roundTo step.minSize 2)),
      ("max_size_px", .float (roundTo step.maxSize 2)),
      ("rem", .text step.remLabel),
      ("clamp", .text step.clamp.toText) ]

/-- The declaration of a step as a custom property. -/
def declaration (step : Step Float) : String :=
  s!"  --{step.label}: {step.clamp.toText};\n"

/-- The class that sets the font size of a step. -/
def utilityClass (step : Step Float) : String :=
  s!".text-{step.label} \x7b font-size: var(--{step.label}); \x7d\n"

end Step

namespace TypeScale

/-- A type scale with rounded sizes. -/
def view (scale : TypeScale) : Datum :=
  let options := scale.options
  .table
    [ ("base_size", .float options.baseSize),
      ("ratio", .text options.ratio.toText),
      ("ratio_value", .float options.ratio.value),
      ("min_viewport", .float options.minViewport),
      ("max_viewport", .float options.maxViewport),
      ("steps", .list (scale.steps.map Step.view)) ]

/-- A type scale as indented JSON. -/
def toJson (scale : TypeScale) : String :=
  Json.pretty scale.view

/-- The comment at the head of a style sheet. -/
def headerLine (options : ScaleOptions) : String :=
  let ratio := options.ratio
  s!"/* Base: {plain options.baseSize}px | Ratio: {ratio.toText} ({plain ratio.value})"
    ++ s!" | Viewport: {plain options.minViewport}px - {plain options.maxViewport}px */\n"

/-- The declarations of a list of tokens under a name. -/
def tokenLines (name : String) (tokens : List (String × String)) : String :=
  String.join (tokens.map fun (token, value) => s!"  --{name}-{token}: {value};\n")

/-- A type scale as a style sheet: sizes and the tokens that go with them as custom properties, then
one class for each step. -/
def toCss (scale : TypeScale) : String :=
  "/* Typography Scale - Generated */\n" ++ headerLine scale.options
    ++ "\n:root \x7b\n  /* Font Sizes */\n"
    ++ String.join (scale.steps.map Step.declaration)
    ++ "\n  /* Line Heights */\n"
    ++ tokenLines "leading" (lineHeights.map fun (name, value) => (name, plain value))
    ++ "\n  /* Letter Spacing */\n"
    ++ tokenLines "tracking" letterSpacings
    ++ "\n  /* Font Weights */\n"
    ++ tokenLines "font" (fontWeights.map fun (name, value) => (name, toString value))
    ++ "\x7d\n\n/* Utility Classes */\n"
    ++ String.join (scale.steps.map Step.utilityClass)

/-- A table of texts in which the last value of a key counts. -/
def textTable (pairs : List (String × String)) : Datum :=
  .table (Datum.collect (pairs.map fun (key, value) => (key, .text value)))

/-- A type scale as a theme extension. -/
def toTailwind (scale : TypeScale) : String :=
  themeModule
    (.table
      [ ("fontSize", textTable
        (scale.steps.map fun step => (toString step.index, step.clamp.toText))), ("lineHeight",
        textTable (lineHeights.map fun (name, value) => (name, plain value))), ("letterSpacing",
        textTable letterSpacings), ("fontWeight",
        textTable (fontWeights.map fun (name, value) => (name, toString value))) ])

end TypeScale

end DesignTokens

import DesignTokens.Contrast.Checklist
import DesignTokens.Contrast.Suggestion
import DesignTokens.Datum.Forms
import DesignTokens.Json.Printer
import DesignTokens.Settings.Basic

/-!
# Reports

What commands print: lines of text for a reader, or indented JSON for a program.
-/

namespace DesignTokens.Report

open Number
open Text (padLeft padRight unlines)

/-- Indented JSON and a line break. -/
def json (datum : Datum) : String :=
  Json.pretty datum ++ "\n"

/-! ### Contrast -/

/-- A verdict without what is common to all. -/
def verdictView (verdict : Verdict) : Datum :=
  .table
    [ ("level", verdict.level.toDatum),
      ("required_ratio", .float verdict.required),
      ("passes", .bool verdict.passes) ]

/-- A suggestion with a rounded ratio. -/
def suggestionView (suggestion : Suggestion) : Datum :=
  .table
    [ ("color", .text suggestion.color.toHex),
      ("ratio", .float (roundTo suggestion.ratio 2)),
      ("direction", suggestion.direction.toDatum) ]

/-- A contrast check as a document; the target is left out if it is not used. -/
def contrastView (check : ContrastCheck) : Datum :=
  let target := if check.selected.passes then [] else [("target_ratio", .float check.target)]
  .table
    ([ ("foreground", .text check.foreground.toHex),
       ("background", .text check.background.toHex),
       ("ratio", .float (roundTo check.selected.ratio 2)),
       ("is_large_text", .bool check.large),
       ("level", check.selected.level.toDatum),
       ("passes", .bool check.selected.passes),
       ("results", .list (check.verdicts.map verdictView)) ]
      ++ target ++ [("suggestions", .list (check.suggestions.map suggestionView))])

/-- The line of a suggestion. -/
def suggestionLine (suggestion : Suggestion) : String :=
  let name := padRight 7 suggestion.direction.name
  s!"  {name} {suggestion.color.toHex} ({fixed 2 suggestion.ratio}:1)"

/-- The lines on suggestions. -/
def suggestionLines (check : ContrastCheck) : List String :=
  let target := fixed 2 check.target
  match check.suggestions with
  | [] => [s!"No alternative within {Suggestion.maxSteps} steps reaches {target}:1"]
  | suggestions => s!"Suggested alternatives (target {target}:1):" :: suggestions.map suggestionLine

/-- A contrast check in lines. -/
def contrastText (check : ContrastCheck) : String :=
  unlines
    ([ s!"Foreground: {check.foreground.toHex}",
       s!"Background: {check.background.toHex}",
       s!"Contrast ratio: {fixed 2 check.selected.ratio}:1",
       "Text size: " ++ (if check.large then "large" else "normal"),
       "" ]
      ++ check.verdicts.map Verdict.message
      ++ if check.selected.passes then [] else "" :: suggestionLines check)

/-! ### Checklist -/

/-- The checklist as a document. -/
def checklistView : Datum :=
  .list (checklist.map fun topic =>
    .table [("title", .text topic.title), ("items", .list (topic.items.map .text))])

/-- The checklist in lines. -/
def checklistText : String :=
  unlines
    ("WCAG 2.1 Accessibility Checklist" :: String.ofList (List.replicate 32 '=') ::
      checklist.flatMap fun topic => "" :: topic.title :: topic.items.map ("  [ ] " ++ ·))

/-! ### Palettes -/

/-- `AAA`, `AA` or `-`: the highest level that a shade meets. -/
def grade (shade : Shade) : String :=
  if shade.passes .aaa then "AAA" else if shade.passes .aa then "AA" else "-"

/-- The columns of a table of shades. -/
def shadeColumns (key hex rgb luminance onWhite onBlack grade : String) : String :=
  s!"  {padLeft 5 key}  {padRight 8 hex} {padRight 19 rgb} {padLeft 9 luminance}"
    ++ s!"  {padLeft 8 onWhite}  {padLeft 8 onBlack}  {grade}"

/-- The line of a shade. -/
def shadeLine (shade : Shade) : String :=
  shadeColumns (toString shade.key) shade.color.toHex shade.color.toCss (fixed 4 shade.luminance)
    s!"{fixed 2 shade.onWhite}:1" s!"{fixed 2 shade.onBlack}:1" (grade shade)

/-- The lines of a palette. -/
def paletteLines (palette : Palette) : List String :=
  let anchor := (palette.primaryShade?.map fun shade => s!", 500 = {shade.color.toHex}").getD ""
  s!"{palette.name} ({palette.shades.length} shades, hue {plain palette.hue}°{anchor})" ::
    shadeColumns "shade" "hex" "rgb" "luminance" "on white" "on black" "WCAG" ::
    palette.shades.map shadeLine

/-- A token set in lines. -/
def tokenSetText (set : TokenSet) : String :=
  unlines
    (s!"Base hue: {plain set.baseHue}°" ::
      set.palettes.flatMap fun palette => "" :: paletteLines palette)

/-! ### Type scales -/

/-- The columns of a table of steps. -/
def stepColumns (label min max rem clamp : String) : String :=
  s!"  {padRight 8 label} {padLeft 9 min} {padLeft 9 max} {padLeft 9 rem}  {clamp}"

/-- The line of a step. -/
def stepLine (step : Step Float) : String :=
  stepColumns step.label step.minLabel step.maxLabel step.remLabel step.clamp.toText

/-- The line on the options of a scale. -/
def optionsLine (options : ScaleOptions) : String :=
  s!"Type scale: {plain options.baseSize}px base, ratio {options.ratio.toText}"
    ++ s!" ({plain options.ratio.value}),"
    ++ s!" viewport {plain options.minViewport}px - {plain options.maxViewport}px"

/-- A type scale in lines. -/
def typeScaleText (scale : TypeScale) : String :=
  unlines
    (optionsLine scale.options :: "" :: stepColumns "step" "min" "max" "rem" "clamp" ::
      scale.steps.map stepLine)

/-! ### Settings -/

/-- Settings and the file they are kept in, as a document. -/
def settingsView (path : String) (isKept : Bool) (settings : Settings) : Datum :=
  .table
    (("path", .text path) :: ("exists", .bool isKept) ::
      settings.sections.map fun (name, fields) => (name, .table fields))

/-- The name of the program in its reports. -/
def appName : String := "Tokensmith"

/-- Settings and the file they are kept in, in lines. -/
def settingsText (path : String) (isKept : Bool) (settings : Settings) : String :=
  let title := s!"{appName} Configuration"
  let typography := settings.typography
  let target := (settings.targetRatio.map fun target => s!"{plain target}:1").getD "(level default)"
  unlines
    [ title,
      String.ofList (List.replicate title.length '='),
      "",
      s!"File: {path}" ++ (if isKept then "" else " (not created, using defaults)"),
      "",
      "Palette:",
      s!"  Base Hue: {plain settings.baseHue}°",
      "",
      "Typography:",
      s!"  Base Size: {plain typography.baseSize}px",
      s!"  Ratio: {typography.ratio.toText} ({plain typography.ratio.value})",
      s!"  Viewport: {plain typography.minViewport}px - {plain typography.maxViewport}px",
      "  Steps: " ++ ", ".intercalate (typography.steps.map toString),
      "",
      "Contrast:",
      s!"  Level: {settings.level.name}",
      s!"  Target Ratio: {target}",
      "" ]

end DesignTokens.Report

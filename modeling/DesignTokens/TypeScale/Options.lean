import DesignTokens.Fault
import DesignTokens.Number.Arithmetic
import DesignTokens.Number.Literal
import DesignTokens.Text.Basic

/-!
# Ratios and options of a type scale

The multiplier between neighbouring steps of a type scale is a musical interval with a name or any
number.  A preset stays a preset: a number that equals its value is not taken for it.
`ScaleOptions` holds the base size, the ratio, the range of viewport widths and the steps asked for.
`ScaleOptions.check` says whether they describe a scale, and names the first fault if not.
-/

namespace DesignTokens

/-! ### Ratios -/

/-- A ratio with a name. -/
inductive Preset where
  | minorSecond
  | majorSecond
  | minorThird
  | majorThird
  | perfectFourth
  | augmentedFourth
  | perfectFifth
  | goldenRatio
deriving DecidableEq, Repr

namespace Preset

/-- Every preset, the smallest first. -/
def all : List Preset :=
  [minorSecond, majorSecond, minorThird, majorThird, perfectFourth, augmentedFourth, perfectFifth,
    goldenRatio]

/-- The name of a preset. -/
def name : Preset → String
  | minorSecond => "minor-second"
  | majorSecond => "major-second"
  | minorThird => "minor-third"
  | majorThird => "major-third"
  | perfectFourth => "perfect-fourth"
  | augmentedFourth => "augmented-fourth"
  | perfectFifth => "perfect-fifth"
  | goldenRatio => "golden-ratio"

/-- The multiplier of a preset. -/
def value : Preset → Float
  | minorSecond => 1.067
  | majorSecond => 1.125
  | minorThird => 1.2
  | majorThird => 1.25
  | perfectFourth => 1.333
  | augmentedFourth => 1.414
  | perfectFifth => 1.5
  | goldenRatio => 1.618

/-- The preset with a name, ignoring case and surrounding whitespace. -/
def ofName? (text : String) : Option Preset :=
  let text := Text.trim text
  all.find? fun preset => Text.sameIgnoringCase preset.name text

end Preset

/-- The multiplier between neighbouring steps. -/
inductive Ratio where
  | preset (preset : Preset)
  | custom (value : Float)
deriving DecidableEq

namespace Ratio

/-- The multiplier as a number. -/
def value : Ratio → Float
  | preset p => p.value
  | custom x => x

/-- A ratio in running text: the name of a preset, or the number. -/
def toText : Ratio → String
  | preset p => p.name
  | custom x => Number.plain x

/-- Parses a ratio: the name of a preset, else a decimal literal; surrounding whitespace is
ignored. -/
def parse (text : String) : Except Fault Ratio :=
  match Preset.ofName? text with
  | some p => .ok (preset p)
  | none =>
    match Number.read? (Text.trim text) with
    | some x => .ok (custom x)
    | none => .error (.unknownRatio (Text.trim text))

end Ratio

/-! ### Options -/

open Number

/-- The inputs of a type scale; sizes and widths are in pixels. -/
structure ScaleOptions where
  baseSize : Float := 16.0
  ratio : Ratio := .preset .perfectFourth
  minViewport : Float := 320.0
  maxViewport : Float := 1280.0
  steps : List Int := [-2, -1, 0, 1, 2, 3, 4, 5]
deriving DecidableEq

namespace ScaleOptions

/-- `0 < x < ∞`. -/
def isPositive (x : Float) : Bool :=
  x.isFinite && 0.0 < x

/-- `base · ratio ^ step`. -/
def sizeOf {α : Type} [Mul α] [Div α] [OfScientific α] (base ratio : α) (step : Int) : α :=
  base * powInt ratio step

/-- `maxSize` of a step. -/
def size (options : ScaleOptions) (step : Int) : Float :=
  sizeOf options.baseSize options.ratio.value step

/-- Whether the size of a step is finite and positive. -/
def hasSize (options : ScaleOptions) (step : Int) : Bool :=
  isPositive (options.size step)

/-- `minViewport < maxViewport`, both finite. -/
def hasViewport (options : ScaleOptions) : Bool :=
  options.minViewport.isFinite && options.maxViewport.isFinite
    && options.minViewport < options.maxViewport

/-- The first fault of the options: the ratio, the base size, the viewport range, the absence of
steps, and the first step without a size are looked at in this order. -/
def check (options : ScaleOptions) : Except Fault Unit :=
  if !isPositive options.ratio.value then .error (.ratioNotPositive options.ratio.toText)
  else if !isPositive options.baseSize then .error (.baseNotPositive options.baseSize)
  else if !options.hasViewport then
    .error (.viewportRange options.minViewport options.maxViewport)
  else if options.steps.isEmpty then .error .noSteps
  else
    match options.steps.find? fun step => !options.hasSize step with
    | some step => .error (.stepOutOfRange step options.ratio.toText options.baseSize)
    | none => .ok ()

end ScaleOptions

end DesignTokens

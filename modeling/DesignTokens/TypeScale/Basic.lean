import DesignTokens.TypeScale.Options

/-!
# Fluid type scales

The size of a step grows linearly with the viewport width from `0.8 · base · ratio ^ index` to
`base · ratio ^ index`.  `Step.ofSize` writes the line as intercept and slope and converts both to
the units of CSS; it is generic in the number type, so that the same formulas are used over `Float`
and over `ℚ`.

A `TypeScale` holds its options and one step for each index asked for, in the same order.
`TypeScale.generate` gives the whole scale or the first fault, never a part.
-/

namespace DesignTokens

open Number

/-- The terms of `clamp(minRem, preferredRem + preferredVw, maxRem)`. -/
structure Clamp (α : Type) where
  minRem : α
  preferredRem : α
  preferredVw : α
  maxRem : α
deriving DecidableEq

/-- A step of a scale: its sizes in pixels at both ends of the viewport range, and the line
between. -/
structure Step (α : Type) where
  index : Int
  minSize : α
  maxSize : α
  clamp : Clamp α
deriving DecidableEq

namespace Step

/-- `minSize / maxSize`. -/
def minFactor {α : Type} [OfScientific α] : α := 0.8

/-- One `rem` in pixels. -/
def rootSize {α : Type} [OfScientific α] : α := 16.0

/-- The step of size `maxSize`: the line through `(minViewport, minSize)` and
`(maxViewport, maxSize)`, with lengths in `rem` and the slope in `vw`, of which a hundred are the
width of the viewport. -/
def ofSize {α : Type} [Sub α] [Mul α] [Div α] [OfScientific α]
    (minViewport maxViewport : α) (index : Int) (maxSize : α) : Step α :=
  let minSize := maxSize * minFactor
  let slope := (maxSize - minSize) / (maxViewport - minViewport)
  let intercept := minSize - slope * minViewport
  { index, minSize, maxSize
    clamp :=
      { minRem := minSize / rootSize
        preferredRem := intercept / rootSize
        preferredVw := slope * 100.0
        maxRem := maxSize / rootSize } }

/-- The step with `maxSize = base · ratio ^ index`. -/
def ofBase {α : Type} [Sub α] [Mul α] [Div α] [OfScientific α]
    (base ratio minViewport maxViewport : α) (index : Int) : Step α :=
  ofSize minViewport maxViewport index (ScaleOptions.sizeOf base ratio index)

/-- A step of a scale; nothing is checked. -/
def compute (options : ScaleOptions) (index : Int) : Step Float :=
  ofBase options.baseSize options.ratio.value options.minViewport options.maxViewport index

end Step

namespace Clamp

/-- `x`, or `0` if `|x| < 0.005`, which would be printed as `0.00` or `-0.00`. -/
def unsignedZero (x : Float) : Float :=
  if x.abs < 0.005 then 0.0 else x

/-- A term with two decimal places. -/
def term (x : Float) : String :=
  fixed 2 (unsignedZero x)

/-- `clamp(…rem, …rem + …vw, …rem)`. -/
def toText (clamp : Clamp Float) : String :=
  let ⟨minRem, preferredRem, preferredVw, maxRem⟩ := clamp
  s!"clamp({term minRem}rem, {term preferredRem}rem + {term preferredVw}vw, {term maxRem}rem)"

/-- The terms in the order of writing. -/
def terms {α : Type} (clamp : Clamp α) : List α :=
  [clamp.minRem, clamp.preferredRem, clamp.preferredVw, clamp.maxRem]

/-- Whether every term is finite. -/
def isFinite (clamp : Clamp Float) : Bool :=
  clamp.terms.all Float.isFinite

end Clamp

namespace Step

/-- The name of a step. -/
def label {α : Type} (step : Step α) : String :=
  s!"step-{step.index}"

/-- `minSize` in `px`. -/
def minLabel (step : Step Float) : String :=
  s!"{fixed 2 step.minSize}px"

/-- `maxSize` in `px`. -/
def maxLabel (step : Step Float) : String :=
  s!"{fixed 2 step.maxSize}px"

/-- `maxSize` in `rem`. -/
def remLabel (step : Step Float) : String :=
  s!"{fixed 3 (step.maxSize / rootSize)}rem"

end Step

/-! ### Scales -/

/-- A generated type scale. -/
structure TypeScale where
  options : ScaleOptions
  steps : List (Step Float)
deriving DecidableEq

namespace TypeScale

/-- A step of a scale, if all terms of its `clamp()` are finite. -/
def step (options : ScaleOptions) (index : Int) : Except Fault (Step Float) :=
  let step := Step.compute options index
  if step.clamp.isFinite then .ok step
  else .error (.noFiniteClamp index options.minViewport options.maxViewport)

/-- The scale of options that pass the check. -/
def generate (options : ScaleOptions) : Except Fault TypeScale := do
  options.check
  let steps ← options.steps.mapM (step options)
  return { options, steps }

/-- The first step with an index. -/
def step? (scale : TypeScale) (index : Int) : Option (Step Float) :=
  scale.steps.find? (·.index == index)

end TypeScale

/-! ### Tokens that go with every scale -/

/-- Line heights, the tightest first. -/
def lineHeights : List (String × Float) :=
  [("tight", 1.1), ("snug", 1.25), ("normal", 1.5), ("relaxed", 1.625), ("loose", 2.0)]

/-- Letter spacings, the tightest first. -/
def letterSpacings : List (String × String) :=
  [("tighter", "-0.05em"), ("tight", "-0.025em"), ("normal", "0"), ("wide", "0.025em"),
    ("wider", "0.05em"), ("widest", "0.1em")]

/-- Font weights, the lightest first. -/
def fontWeights : List (String × Nat) :=
  [("thin", 100), ("extralight", 200), ("light", 300), ("normal", 400), ("medium", 500),
    ("semibold", 600), ("bold", 700), ("extrabold", 800), ("black", 900)]

end DesignTokens

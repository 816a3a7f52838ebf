import DesignTokens.Number.Text

/-!
# What can be wrong with a request

`Fault` lists the causes for which a colour, a level, a ratio or a type scale is refused;
`Fault.message` is the text shown to the user.
-/

namespace DesignTokens

open Number (plain)

/-- Why a request is refused. -/
inductive Fault where
  /-- A colour without exactly six bytes of digits. -/
  | colorLength (input : String)
  /-- A colour with a character that is no hexadecimal digit. -/
  | colorDigit (input : String)
  /-- Neither `AA` nor `AAA`. -/
  | unknownLevel (text : String)
  /-- Neither a preset nor a number. -/
  | unknownRatio (text : String)
  /-- A scale ratio that is not a positive number. -/
  | ratioNotPositive (ratio : String)
  /-- A base size that is not a positive number. -/
  | baseNotPositive (base : Float)
  /-- A viewport range that is empty, inverted or unbounded. -/
  | viewportRange (least greatest : Float)
  /-- A scale without steps. -/
  | noSteps
  /-- A step whose size overflows or underflows. -/
  | stepOutOfRange (step : Int) (ratio : String) (base : Float)
  /-- A step with a `clamp()` term that is not finite. -/
  | noFiniteClamp (step : Int) (least greatest : Float)
deriving DecidableEq

namespace Fault

/-- The message for an invalid colour. -/
def colorText (input reason : String) : String :=
  s!"Invalid color format '{input}': {reason}"

/-- The message for an invalid configuration. -/
def configurationText (cause : String) : String :=
  s!"Configuration error: {cause}"

/-- Whether a fault is about a colour. -/
def isColor : Fault → Bool
  | colorLength _ | colorDigit _ => true
  | _ => false

/-- The message of a fault. -/
def message : Fault → String
  | colorLength input => colorText input "expected 6 hex digits (RRGGBB)"
  | colorDigit input => colorText input "contains non-hex characters"
  | unknownLevel text => configurationText s!"unknown WCAG level '{text}' (expected AA or AAA)"
  | unknownRatio text =>
    configurationText
      s!"unknown ratio '{text}' (expected a preset name such as 'perfect-fourth' or a number)"
  | ratioNotPositive ratio => configurationText s!"ratio must be a positive number, got {ratio}"
  | baseNotPositive base =>
    configurationText s!"base size must be a positive number of px, got {plain base}"
  | viewportRange least greatest =>
    configurationText
      s!"max viewport ({plain greatest}px) must be greater than min viewport ({plain least}px)"
  | noSteps => configurationText "at least one step is required"
  | stepOutOfRange step ratio base =>
    configurationText s!"step {step} is out of range for ratio {ratio} and base size {plain base}px"
  | noFiniteClamp step least greatest =>
    configurationText
      (s!"step {step} has no finite clamp() expression for the "
        ++ s!"{plain least}px to {plain greatest}px viewport range")

end Fault

end DesignTokens

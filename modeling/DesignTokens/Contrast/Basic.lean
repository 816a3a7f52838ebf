import DesignTokens.Color.Rgb
import DesignTokens.Number.Arithmetic
import DesignTokens.Text.Basic

/-!
# WCAG contrast

The relative luminance of a colour is `0.2126 · R + 0.7152 · G + 0.0722 · B` of its channels in
linear light, from `0` for black to `1` for white.  The contrast ratio of two luminances is
`(L₁ + 0.05) / (L₂ + 0.05)` with the greater one first.  A `Level` is AA or AAA, and a `Verdict`
compares the contrast ratio of a foreground and a background with what a level requires.
-/

namespace DesignTokens

open Number

/-! ### Levels -/

/-- A level of conformance for the contrast of text. -/
inductive Level where
  | aa
  | aaa
deriving DecidableEq, Repr

namespace Level

/-- AA, then AAA. -/
def all : List Level := [aa, aaa]

/-- The name of a level. -/
def name : Level → String
  | aa => "AA"
  | aaa => "AAA"

/-- The minimum contrast ratio: 4.5 for AA and 7 for AAA, 3 and 4.5 for large text. -/
def requiredRatio : Level → (large : Bool) → Float
  | aa, false => 4.5
  | aa, true => 3.0
  | aaa, false => 7.0
  | aaa, true => 4.5

/-- The level with exactly this name. -/
def ofName? (text : String) : Option Level :=
  all.find? (·.name == text)

/-- Parses a level, ignoring case and surrounding whitespace. -/
def parse (text : String) : Except Fault Level :=
  let upper := Text.upperAscii (Text.trim text)
  match ofName? upper with
  | some level => .ok level
  | none => .error (.unknownLevel upper)

end Level

/-- What a pair of colours is checked against. -/
structure Criterion where
  level : Level := .aa
  large : Bool := false
deriving DecidableEq, Repr

/-! ### Luminance -/

namespace Contrast

/-- Below this fraction the sRGB curve is linear. -/
def linearThreshold : Float := 0.03928

/-- The sRGB gamma expansion of a channel. -/
def linearize (channel : UInt8) : Float :=
  let c := channel.toFloat / 255.0
  if c ≤ linearThreshold then c / 12.92 else pow ((c + 0.055) / 1.055) 2.4

/-- The relative luminance of a colour. -/
def luminance (color : Rgb) : Float :=
  0.2126 * linearize color.r + 0.7152 * linearize color.g + 0.0722 * linearize color.b

/-- `(L₁ + 0.05) / (L₂ + 0.05)` for `L₁ ≥ L₂`. -/
def ofLuminances (a b : Float) : Float :=
  if b ≤ a then (a + 0.05) / (b + 0.05) else (b + 0.05) / (a + 0.05)

/-- The contrast ratio of two colours. -/
def ratio (a b : Rgb) : Float :=
  ofLuminances (luminance a) (luminance b)

end Contrast

/-! ### Verdicts -/

/-- The outcome of checking one pair of colours against one level. -/
structure Verdict where
  ratio : Float
  required : Float
  passes : Bool
  level : Level
  large : Bool
deriving DecidableEq

namespace Verdict

/-- Checks a pair of colours against a level. -/
def evaluate (foreground background : Rgb) (level : Level) (large : Bool) : Verdict :=
  let ratio := Contrast.ratio foreground background
  let required := level.requiredRatio large
  { ratio, required, passes := required ≤ ratio, level, large }

/-- Checks a pair of colour texts against a level. -/
def ofTexts (foreground background : String) (level : Level) (large : Bool) :
    Except Fault Verdict := do
  let foreground ← Rgb.ofHex foreground
  let background ← Rgb.ofHex background
  return evaluate foreground background level large

/-- Checks a pair of colours against AA and AAA. -/
def evaluateAll (foreground background : Rgb) (large : Bool) : List Verdict :=
  Level.all.map fun level => evaluate foreground background level large

/-- Checks a pair of colour texts against AA and AAA. -/
def allOfTexts (foreground background : String) (large : Bool) : Except Fault (List Verdict) := do
  let foreground ← Rgb.ofHex foreground
  let background ← Rgb.ofHex background
  return evaluateAll foreground background large

/-- The verdict in one line. -/
def message (verdict : Verdict) : String :=
  let level := verdict.level.name
  let ratio := fixed 2 verdict.ratio
  let required := plain verdict.required
  if verdict.passes then s!"✓ Passes WCAG {level} ({ratio}:1 >= {required}:1)"
  else s!"✗ Fails WCAG {level} ({ratio}:1 < {required}:1)"

end Verdict

end DesignTokens

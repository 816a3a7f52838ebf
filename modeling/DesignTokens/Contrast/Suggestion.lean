import DesignTokens.Contrast.Basic

/-!
# Contrast checks and accessible alternatives

When a foreground has too little contrast, all its channels are moved together toward black and
toward white in equal steps, and the first colour in each direction that reaches the target is
suggested.  A `ContrastCheck` puts together all that is said about one pair of colours: a verdict
for each level, the verdict that counts, and suggestions if that one is a failure.
-/

namespace DesignTokens

/-- Where a foreground is moved. -/
inductive Direction where
  | darker
  | lighter
deriving DecidableEq, Repr

namespace Direction

/-- Both directions, in the order of suggestions. -/
def all : List Direction := [darker, lighter]

/-- The name of a direction. -/
def name : Direction → String
  | darker => "darker"
  | lighter => "lighter"

/-- The direction with exactly this name. -/
def ofName? (text : String) : Option Direction :=
  all.find? (·.name == text)

/-- A colour moved by an amount. -/
def move : Direction → (amount : Nat) → Rgb → Rgb
  | darker => Rgb.darken
  | lighter => Rgb.lighten

end Direction

/-- A foreground that reaches a target contrast. -/
structure Suggestion where
  color : Rgb
  ratio : Float
  direction : Direction
deriving DecidableEq

namespace Suggestion

/-- The change of every channel in one step. -/
def stepAmount : Nat := 15

/-- The number of steps tried in one direction. -/
def maxSteps : Nat := 10

/-- The foreground after `i` steps. -/
def candidate (foreground : Rgb) (direction : Direction) (i : Nat) : Rgb :=
  direction.move (stepAmount * i) foreground

/-- The suggestion after `i` steps, if it reaches the target. -/
def atStep? (foreground background : Rgb) (target : Float) (direction : Direction) (i : Nat) :
    Option Suggestion :=
  let color := candidate foreground direction i
  let ratio := Contrast.ratio color background
  if target ≤ ratio then some { color, ratio, direction } else none

/-- The first of the steps `1, …, maxSteps` that reaches the target. -/
def search (foreground background : Rgb) (target : Float) (direction : Direction) :
    Option Suggestion :=
  (List.range maxSteps).findSome? fun k =>
    atStep? foreground background target direction (k + 1)

/-- At most two suggestions: the nearest darker colour, then the nearest lighter one. -/
def suggest (foreground background : Rgb) (target : Float) : List Suggestion :=
  Direction.all.filterMap (search foreground background target)

/-- Suggestions for a pair of colour texts. -/
def ofTexts (foreground background : String) (target : Float) : Except Fault (List Suggestion) := do
  let foreground ← Rgb.ofHex foreground
  let background ← Rgb.ofHex background
  return suggest foreground background target

end Suggestion

/-! ### Checks -/

/-- The outcome of a contrast check. -/
structure ContrastCheck where
  foreground : Rgb
  background : Rgb
  large : Bool
  /-- The verdict for the level that was asked for. -/
  selected : Verdict
  verdicts : List Verdict
  /-- The contrast that suggestions aim for. -/
  target : Float
  suggestions : List Suggestion
deriving DecidableEq

namespace ContrastCheck

/-- Checks a pair of colours; suggestions are made only if the level is not met. -/
def perform (foreground background : Rgb) (level : Level) (large : Bool) (target : Float) :
    ContrastCheck :=
  let selected := Verdict.evaluate foreground background level large
  { foreground, background, large, selected, target
    verdicts := Verdict.evaluateAll foreground background large
    suggestions := if selected.passes then [] else Suggestion.suggest foreground background target }

end ContrastCheck

end DesignTokens

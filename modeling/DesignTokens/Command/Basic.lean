import DesignTokens.Command.Arguments
import DesignTokens.Contrast.Basic
import DesignTokens.Number.Literal
import DesignTokens.TypeScale.Options

/-!
# Commands

A `Command` is what a command line asks for.  `Command.parse?` reads it from the words of the line,
and gives none where the line is not understood.
-/

namespace DesignTokens

open Number

/-- The output format. -/
inductive Format where
  | text
  | json
  | css
  | tailwind
deriving DecidableEq, Repr

namespace Format

/-- Every format. -/
def all : List Format := [text, json, css, tailwind]

/-- The name of a format. -/
def name : Format → String
  | text => "text"
  | json => "json"
  | css => "css"
  | tailwind => "tailwind"

/-- The format with exactly this name. -/
def ofName? (word : String) : Option Format :=
  all.find? (·.name == word)

end Format

/-- What is given for a type scale in place of the settings. -/
structure ScaleChanges where
  baseSize : Option Float := none
  ratio : Option Ratio := none
  minViewport : Option Float := none
  maxViewport : Option Float := none
  steps : Option (List Int) := none

/-- What is given to be set. -/
structure SettingsChanges where
  hue : Option Float := none
  ratio : Option Ratio := none
  baseSize : Option Float := none
  level : Option Level := none

/-- What a contrast check is asked for. -/
structure ContrastRequest where
  foreground : String
  background : String
  large : Bool := false
  level : Option Level := none
  target : Option Float := none
  json : Bool := false

/-- What a command line asks for. -/
inductive Command where
  | version
  | contrast (request : ContrastRequest)
  | touch (width height : Nat) (json : Bool)
  | checklist (json : Bool)
  | palette (hue : Option Float) (name : Option String) (format : Format)
  | typeScale (changes : ScaleChanges) (format : Format)
  | showSettings (json : Bool)
  | changeSettings (changes : SettingsChanges)

namespace Command

/-! ### Grammars -/

/-- `--verbose`, `-v`, which every command takes. -/
def verbose : OptionRule := { long := "verbose", short := some 'v', takesValue := false }

/-- A flag with a long name. -/
def flag (name : String) : OptionRule := { long := name, takesValue := false }

/-- An option with a long name. -/
def option (name : String) : OptionRule := { long := name }

/-- `--format`, `-f`. -/
def formatOption : OptionRule := { long := "format", short := some 'f' }

/-- The words in front of a command. -/
def topGrammar : Grammar where
  options := [verbose, { long := "version", short := some 'V', takesValue := false, stops := true }]
  commands := ["contrast", "touch", "checklist", "palette", "typescale", "config"]

/-- The words of a contrast check. -/
def contrastGrammar : Grammar where
  options := [verbose, flag "large", option "level", option "target", flag "json"]
  operands := [.refused, .refused]

/-- The words of a touch target check. -/
def touchGrammar : Grammar where
  options := [verbose, flag "json"]
  operands := [.refused, .refused]

/-- The words of a command with no options but `--json`. -/
def reportGrammar : Grammar where
  options := [verbose, flag "json"]

/-- The words of a palette. -/
def paletteGrammar : Grammar where
  options := [verbose, option "name", formatOption]
  operands := [.numbers]

/-- The words of a type scale. -/
def typeScaleGrammar : Grammar where
  options :=
    [ verbose, option "base", option "ratio", option "min-viewport", option "max-viewport",
      { long := "steps", hyphens := .any, repeats := true }, formatOption ]

/-- The words in front of a command on settings. -/
def settingsGrammar : Grammar where
  options := [verbose]
  commands := ["show", "set"]

/-- The words of a change of settings. -/
def changeGrammar : Grammar where
  options :=
    [ verbose, { long := "hue", hyphens := .numbers }, option "ratio", option "base",
      option "level" ]

/-! ### Values -/

/-- An integer between bounds. -/
def readBounded? (least greatest : Int) (word : String) : Option Int :=
  (readInt? word.toList).filter fun n => least ≤ n ∧ n ≤ greatest

/-- A size in pixels. -/
def readSize? (word : String) : Option Nat :=
  (readBounded? 0 0xffffffff word).map Int.toNat

/-- The index of a step. -/
def readStep? (word : String) : Option Int :=
  readBounded? (-0x80000000) 0x7fffffff word

/-- A ratio. -/
def readRatio? (word : String) : Option Ratio :=
  (Ratio.parse word).toOption

/-- A level. -/
def readLevel? (word : String) : Option Level :=
  (Level.parse word).toOption

/-- The steps of all comma-separated lists that are given. -/
def readSteps? (lists : List String) : Option (Option (List Int)) :=
  match lists with
  | [] => some none
  | _ => ((lists.flatMap (Text.parts ',')).mapM readStep?).map some

/-! ### Commands -/

/-- Reads a contrast check. -/
def parseContrast? (words : List String) : Option Command := do
  let arguments ← Arguments.scan contrastGrammar words
  let level ← arguments.optional "level" readLevel?
  let target ← arguments.optional "target" read?
  match arguments.operands with
  | [foreground, background] =>
    some
      (.contrast
        { foreground, background, level, target
          large := arguments.has "large"
          json := arguments.has "json" })
  | _ => none

/-- Reads a touch target check. -/
def parseTouch? (words : List String) : Option Command := do
  let arguments ← Arguments.scan touchGrammar words
  match arguments.operands with
  | [width, height] => do
    let width ← readSize? width
    let height ← readSize? height
    some (.touch width height (arguments.has "json"))
  | _ => none

/-- Reads the command for a palette. -/
def parsePalette? (words : List String) : Option Command := do
  let arguments ← Arguments.scan paletteGrammar words
  let name ← arguments.optional "name" some
  let format ← arguments.optional "format" Format.ofName?
  let format := format.getD .text
  match arguments.operands with
  | [] => some (.palette none name format)
  | hue :: _ => (read? hue).map fun hue => .palette (some hue) name format

/-- Reads the command for a type scale. -/
def parseTypeScale? (words : List String) : Option Command := do
  let arguments ← Arguments.scan typeScaleGrammar words
  let baseSize ← arguments.optional "base" read?
  let ratio ← arguments.optional "ratio" readRatio?
  let minViewport ← arguments.optional "min-viewport" read?
  let maxViewport ← arguments.optional "max-viewport" read?
  let steps ← readSteps? (arguments.values "steps")
  let format ← arguments.optional "format" Format.ofName?
  return .typeScale { baseSize, ratio, minViewport, maxViewport, steps } (format.getD .text)

/-- Reads a change of settings. -/
def parseChange? (words : List String) : Option Command := do
  let arguments ← Arguments.scan changeGrammar words
  let hue ← arguments.optional "hue" read?
  let ratio ← arguments.optional "ratio" readRatio?
  let baseSize ← arguments.optional "base" read?
  let level ← arguments.optional "level" readLevel?
  return .changeSettings { hue, ratio, baseSize, level }

/-- Reads a command on settings. -/
def parseSettings? (words : List String) : Option Command := do
  let arguments ← Arguments.scan settingsGrammar words
  match arguments.command with
  | some ("show", words) =>
    (Arguments.scan reportGrammar words).map fun arguments => .showSettings (arguments.has "json")
  | some ("set", words) => parseChange? words
  | _ => none

/-- Reads a command from the words of a command line. -/
def parse? (words : List String) : Option Command := do
  let arguments ← Arguments.scan topGrammar words
  if arguments.has "version" then return .version
  match arguments.command with
  | some ("contrast", words) => parseContrast? words
  | some ("touch", words) => parseTouch? words
  | some ("checklist", words) =>
    (Arguments.scan reportGrammar words).map fun arguments => .checklist (arguments.has "json")
  | some ("palette", words) => parsePalette? words
  | some ("typescale", words) => parseTypeScale? words
  | some ("config", words) => parseSettings? words
  | _ => none

end Command

end DesignTokens

import DesignTokens.Datum.Forms
import DesignTokens.Toml.Printer
import DesignTokens.Toml.Reader

/-!
# Settings

The inputs that are used where a command does not give its own: a base hue, the options of a type
scale, a level and a target contrast ratio.  `Settings.check` says whether they can be used.

As a TOML document settings have three tables, `palette`, `typography` and `contrast`.
`Settings.ofToml?` reads a document over the defaults: every table and every key may be left out.
`Settings.toToml` writes them all, except a target ratio that is not set.
-/

namespace DesignTokens

open Number

/-- What commands fall back on. -/
structure Settings where
  baseHue : Float := 220.0
  typography : ScaleOptions := {}
  level : Level := .aa
  /-- The contrast that suggestions aim for; without it, the required ratio of the level. -/
  targetRatio : Option Float := none
deriving DecidableEq

namespace Settings

/-- Why settings cannot be used. -/
inductive Invalid where
  | typography (fault : Fault)
  | targetRatio (target : Float)
deriving DecidableEq

/-- The message for invalid settings. -/
def Invalid.message : Invalid → String
  | typography fault => s!"Invalid [typography] settings: {fault.message}"
  | targetRatio target =>
    s!"Invalid [contrast] target_ratio {plain target}: must be between 1 and 21"

/-- Whether a contrast ratio is in `[1, 21]`. -/
def isReachable (target : Float) : Bool :=
  1.0 ≤ target && target ≤ 21.0

/-- Checks settings, the type scale first. -/
def check (settings : Settings) : Except Invalid Unit :=
  match settings.typography.check with
  | .error fault => .error (.typography fault)
  | .ok () =>
    match settings.targetRatio with
    | none => .ok ()
    | some target => if isReachable target then .ok () else .error (.targetRatio target)

/-- The contrast that suggestions aim for at a level. -/
def targetFor (settings : Settings) (level : Level) (large : Bool) : Float :=
  settings.targetRatio.getD (level.requiredRatio large)

end Settings

/-! ### TOML -/

namespace Settings

open Datum

/-- The tables of the document. -/
def sections (settings : Settings) : List (String × List (String × Datum)) :=
  [ ("palette", [("base_hue", .float settings.baseHue)]),
    ("typography", settings.typography.toFields),
    ( "contrast",
      ("level", settings.level.toDatum) ::
        settings.targetRatio.toList.map fun target => ("target_ratio", .float target)) ]

/-- Settings as a `Datum`. -/
def toDatum (settings : Settings) : Datum :=
  .table (settings.sections.map fun (name, fields) => (name, .table fields))

/-- Reads the base hue from `[palette]`. -/
def hueOfDatum? (dialect : Dialect) (datum : Datum) : Option Float := do
  let fields ← datum.toFields? dialect ["base_hue"]
  withDefault ({} : Settings).baseHue toFloat? "base_hue" fields

/-- Reads the level and the target from `[contrast]`. -/
def contrastOfDatum? (dialect : Dialect) (datum : Datum) : Option (Level × Option Float) := do
  let fields ← datum.toFields? dialect ["level", "target_ratio"]
  let level ← withDefault ({} : Settings).level (Level.ofDatum? dialect) "level" fields
  let target ← withDefault ({} : Settings).targetRatio (toOption? toFloat?) "target_ratio" fields
  return (level, target)

/-- Reads settings over the defaults. -/
def ofDatum? (dialect : Dialect) (datum : Datum) : Option Settings := do
  let default : Settings := {}
  let fields ← datum.toFields? dialect ["palette", "typography", "contrast"]
  let baseHue ← withDefault default.baseHue (hueOfDatum? dialect) "palette" fields
  let typography ← withDefault default.typography (ScaleOptions.ofDatum? dialect)
    "typography" fields
  let (level, targetRatio) ←
    withDefault (default.level, default.targetRatio) (contrastOfDatum? dialect) "contrast" fields
  return { baseHue, typography, level, targetRatio }

/-- Settings as TOML. -/
def toToml (settings : Settings) : String :=
  Toml.write settings.sections

/-- Reads settings from TOML, over the defaults. -/
def ofToml? (document : String) : Option Settings :=
  (Toml.read? document).bind (ofDatum? .toml)

end Settings

end DesignTokens

import DesignTokens.Command.Basic
import DesignTokens.Command.Report
import DesignTokens.Palette.Export
import DesignTokens.Settings.Store
import DesignTokens.TypeScale.Export

/-!
# Running commands

`Command.run` gives what a command prints, how it ends, and the files it leaves.  A `Failure` is a
cause for which a command ends without success; its kind decides the exit code.  Commands that need
settings go on with the defaults where the settings cannot be loaded, and say so in a warning;
commands on the settings themselves fail instead.  Only a change of settings touches files.
-/

namespace DesignTokens

open Number

/-! ### Failures -/

/-- The kinds of failure. -/
inductive FailureKind where
  /-- The request or the settings are at fault, or what was checked does not pass. -/
  | validation
  /-- The files are at fault. -/
  | storage
deriving DecidableEq, Repr

/-- The exit code of a failure. -/
def FailureKind.exitCode : FailureKind → Nat
  | validation => 1
  | storage => 2

/-- Why a command ends without success. -/
inductive Failure where
  | fault (fault : Fault)
  | targetRatio (target : Float)
  | noVerdict (level : Level)
  | contrastTooLow (level : Level)
  | touchTooSmall (required : Nat)
  | blankName
  | nothingToSet
  | hueNotFinite
  | notLoaded (cause : StoreFault)
  | invalidSettings (cause : Settings.Invalid)
  | notSaved (cause : StoreFault)

namespace Failure

/-- The kind of a failure. -/
def kind : Failure → FailureKind
  | notSaved _ => .storage
  | _ => .validation

/-- The message of a failure. -/
def message : Failure → String
  | fault cause => cause.message
  | targetRatio target => s!"Invalid target ratio {plain target}: must be between 1 and 21"
  | noVerdict level => s!"No result for WCAG {level.name}"
  | contrastTooLow level => s!"Contrast does not meet WCAG {level.name}"
  | touchTooSmall required => s!"Touch target is smaller than {required}x{required}px"
  | blankName => "Palette name cannot be empty"
  | nothingToSet =>
    "At least one configuration option must be specified: --hue, --ratio, --base, or --level"
  | hueNotFinite => "Hue must be a finite number"
  | notLoaded cause => s!"Failed to load configuration: {cause.message}"
  | invalidSettings cause => s!"Invalid configuration: {cause.message}"
  | notSaved cause => s!"Failed to save configuration: {cause.message}"

end Failure

/-! ### Outcomes -/

/-- How a command ends. -/
structure Outcome where
  output : String := ""
  failure : Option Failure := none
  /-- Why the settings were not used. -/
  ignored : Option StoreFault := none

namespace Outcome

/-- The end of a command that failed before it printed anything. -/
def failed (failure : Failure) : Outcome := { failure := some failure }

/-- The exit code. -/
def exitCode (outcome : Outcome) : Nat :=
  match outcome.failure with
  | some failure => failure.kind.exitCode
  | none => 0

end Outcome

/-! ### Checks -/

/-- Checks a pair of colours by their texts; suggestions are made only if the level is not met. -/
def ContrastCheck.ofTexts (foreground background : Rgb) (level : Level) (large : Bool)
    (target : Float) : Except Failure ContrastCheck := do
  let verdicts ← (Verdict.allOfTexts foreground.toHex background.toHex large).mapError .fault
  let some selected := verdicts.find? (·.level == level) | throw (.noVerdict level)
  let suggestions ←
    if selected.passes then pure []
    else (Suggestion.ofTexts foreground.toHex background.toHex target).mapError .fault
  return { foreground, background, large, selected, verdicts, target, suggestions }

/-- Checks the contrast of a request; the settings are used where the request leaves something
open. -/
def ContrastRequest.check (request : ContrastRequest) (settings : Settings) :
    Except Failure ContrastCheck := do
  let level := request.level.getD settings.level
  let target := request.target.getD (settings.targetFor level request.large)
  if !Settings.isReachable target then throw (.targetRatio target)
  let foreground ← (Rgb.ofHex (Text.trim request.foreground)).mapError .fault
  let background ← (Rgb.ofHex (Text.trim request.background)).mapError .fault
  ContrastCheck.ofTexts foreground background level request.large target

/-- Runs a contrast check. -/
def ContrastRequest.run (request : ContrastRequest) (settings : Settings) : Outcome :=
  match request.check settings with
  | .error failure => .failed failure
  | .ok check =>
    { output :=
        if request.json then Report.json (Report.contrastView check)
        else Report.contrastText check
      failure :=
        if check.selected.passes then none
        else some (.contrastTooLow check.selected.level) }

/-- Runs a touch target check. -/
def TouchTarget.run (width height : Nat) (json : Bool) : Outcome :=
  let target := TouchTarget.check width height
  { output := if json then Report.json target.toDatum else Text.unlines [target.message]
    failure := if target.passes then none else some (.touchTooSmall target.required) }

/-! ### Tokens -/

/-- The token set that is asked for: one palette if a name is given, else the palettes of a hue. -/
def requestedSet (hue : Float) : (name : Option String) → Except Failure TokenSet
  | none => .ok (TokenSet.generate hue)
  | some name =>
    let name := Text.trim name
    if name.isEmpty then .error .blankName else .ok (TokenSet.single hue name)

/-- A token set in a format. -/
def TokenSet.render (set : TokenSet) : Format → String
  | .text => Report.tokenSetText set
  | .json => set.toJson ++ "\n"
  | .css => set.toCss
  | .tailwind => set.toTailwind

/-- Runs the command for a palette. -/
def TokenSet.run (hue : Option Float) (name : Option String) (format : Format)
    (settings : Settings) : Outcome :=
  match requestedSet (hue.getD settings.baseHue) name with
  | .error failure => .failed failure
  | .ok set => { output := set.render format }

/-- Options with what is given put in place. -/
def ScaleChanges.apply (changes : ScaleChanges) (options : ScaleOptions) : ScaleOptions where
  baseSize := changes.baseSize.getD options.baseSize
  ratio := changes.ratio.getD options.ratio
  minViewport := changes.minViewport.getD options.minViewport
  maxViewport := changes.maxViewport.getD options.maxViewport
  steps := changes.steps.getD options.steps

/-- A type scale in a format. -/
def TypeScale.render (scale : TypeScale) : Format → String
  | .text => Report.typeScaleText scale
  | .json => scale.toJson ++ "\n"
  | .css => scale.toCss
  | .tailwind => scale.toTailwind

/-- Runs the command for a type scale. -/
def TypeScale.run (changes : ScaleChanges) (format : Format) (settings : Settings) : Outcome :=
  match TypeScale.generate (changes.apply settings.typography) with
  | .error fault => .failed (.fault fault)
  | .ok scale => { output := scale.render format }

/-! ### Settings -/

/-- Runs a command with the settings in a directory, or with the defaults if they cannot be
loaded. -/
def withSettings (files : Files) (directory : Place) (run : Settings → Outcome)
    (disk : Disk := {}) : Outcome :=
  match Store.load files directory disk with
  | .ok settings => run settings
  | .error cause => { run {} with ignored := some cause }

/-- Runs the command that shows settings. -/
def Settings.report (json : Bool) (files : Files) (directory : Place)
    (disk : Disk := {}) : Outcome :=
  match Store.load files directory disk with
  | .error cause => .failed (.notLoaded cause)
  | .ok settings =>
    let path := (Store.settingsFile directory).text
    let isKept := Store.isKept files directory
    { output :=
        if json then Report.json (Report.settingsView path isKept settings)
        else Report.settingsText path isKept settings }

namespace SettingsChanges

/-- Whether nothing is given. -/
def isEmpty (changes : SettingsChanges) : Bool :=
  changes.hue.isNone && changes.ratio.isNone && changes.baseSize.isNone && changes.level.isNone

/-- Whether the given hue is NaN or `±∞`. -/
def hasBadHue (changes : SettingsChanges) : Bool :=
  changes.hue.any fun hue => !hue.isFinite

/-- Settings with what is given put in place; a hue is reduced modulo 360. -/
def apply (changes : SettingsChanges) (settings : Settings) : Settings :=
  { settings with
    baseHue := (changes.hue.map (wrap · 360.0)).getD settings.baseHue
    typography :=
      { settings.typography with
        ratio := changes.ratio.getD settings.typography.ratio
        baseSize := changes.baseSize.getD settings.typography.baseSize }
    level := changes.level.getD settings.level }

/-- The settings after a change. -/
def settingsAfter (changes : SettingsChanges) (files : Files) (directory : Place)
    (disk : Disk := {}) : Except Failure Settings := do
  if changes.isEmpty then throw .nothingToSet
  let settings ← (Store.load files directory disk).mapError .notLoaded
  if changes.hasBadHue then throw .hueNotFinite
  let settings := changes.apply settings
  settings.check.mapError .invalidSettings
  return settings

/-- Runs a change of settings. -/
def run (changes : SettingsChanges) (files : Files) (directory : Place) (disk : Disk := {}) :
    Outcome × Files :=
  match changes.settingsAfter files directory disk with
  | .error failure => (.failed failure, files)
  | .ok settings =>
    match Store.saveIn files directory settings disk with
    | (.error cause, files) => (.failed (.notSaved cause), files)
    | (.ok (), files) => ({ output := "Configuration updated successfully.\n" }, files)

end SettingsChanges

/-! ### All commands -/

namespace Command

/-- The name by which the program is called. -/
def programName : String := "tokensmith"

/-- The version of the program. -/
def versionText : String := s!"{programName} 0.1.0\n"

/-- Runs a command on files and the directory of settings. -/
def run (command : Command) (files : Files) (directory : Place) (disk : Disk := {}) :
    Outcome × Files :=
  match command with
  | .version => ({ output := versionText }, files)
  | .contrast request => (withSettings files directory request.run disk, files)
  | .touch width height json => (TouchTarget.run width height json, files)
  | .checklist json =>
    ({ output := if json then Report.json Report.checklistView else Report.checklistText }, files)
  | .palette hue name format =>
    (withSettings files directory (TokenSet.run hue name format) disk, files)
  | .typeScale changes format =>
    (withSettings files directory (TypeScale.run changes format) disk, files)
  | .showSettings json => (Settings.report json files directory disk, files)
  | .changeSettings changes => changes.run files directory disk

end Command

end DesignTokens

import DesignTokens.Files
import DesignTokens.Settings.Basic
import DesignTokens.Text.Basic

/-!
# Keeping settings in a file

Settings are kept in `config.toml` in a directory of their own.  `Store.load` takes the defaults
where there is no file.  `Store.save` writes a temporary file and moves it over the old one, so that
a save that fails leaves the old file as it was, whatever the disk refuses.
-/

namespace DesignTokens

open Settings (Invalid)

/-- Why the content of a file cannot be read. -/
inductive ReadCause where
  | files (cause : FileCause)
  | notText

/-- The message of a cause. -/
def ReadCause.message : ReadCause → String
  | files cause => cause.message
  | notText => "stream did not contain valid UTF-8"

/-- Why settings cannot be loaded or saved. -/
inductive StoreFault where
  | unreadable (path : String) (cause : ReadCause)
  | malformed (path : String)
  | invalid (cause : Invalid)
  | noDirectory (path : String) (cause : FileCause)
  | noTemporary (path : String) (cause : FileCause)
  | notMoved (path : String) (cause : FileCause)

/-- The message of a fault. -/
def StoreFault.message : StoreFault → String
  | unreadable path cause => s!"Failed to read config file: {path}: {cause.message}"
  | malformed path => s!"Failed to parse config file: {path}"
  | invalid cause => cause.message
  | noDirectory path cause => s!"Failed to create config directory: {path}: {cause.message}"
  | noTemporary path cause => s!"Failed to write temp config file: {path}: {cause.message}"
  | notMoved path cause => s!"Failed to rename temp config file to: {path}: {cause.message}"

namespace Store

/-- The name of the directory of settings below the configuration directory of the user. -/
def directoryName : String := "tokensmith"

/-- The environment variable that gives the directory of settings. -/
def directoryVariable : String := "TOKENSMITH_CONFIG_DIR"

/-- `config.toml` in a directory. -/
def settingsFile (directory : Place) : Place :=
  directory.child "config.toml"

/-- `config.toml.tmp` in a directory. -/
def temporaryFile (directory : Place) : Place :=
  directory.child "config.toml.tmp"

/-- Reads settings from the content of a file, and checks them. -/
def decode (path : String) (content : ByteArray) : Except StoreFault Settings :=
  match Text.ofBytes? content with
  | none => .error (.unreadable path .notText)
  | some document =>
    match Settings.ofToml? document with
    | none => .error (.malformed path)
    | some settings =>
      match settings.check with
      | .error cause => .error (.invalid cause)
      | .ok () => .ok settings

/-- Whether there is a file of settings in a directory. -/
def isKept (files : Files) (directory : Place) : Bool :=
  files.holds (settingsFile directory).location

/-- Loads the settings in a directory. -/
def load (files : Files) (directory : Place) (disk : Disk := {}) : Except StoreFault Settings :=
  let file := settingsFile directory
  if files.holds file.location then
    match files.read file.location disk with
    | .error cause => .error (.unreadable file.text (.files cause))
    | .ok content => decode file.text content
  else .ok {}

/-- The content of the file of settings. -/
def content (settings : Settings) : ByteArray :=
  settings.toToml.toUTF8

/-- Saves settings in a directory that is there.  The files are given back also when the save fails:
the temporary file may then be left, whole or in part. -/
def save (files : Files) (directory : Place) (settings : Settings) (disk : Disk := {}) :
    Except StoreFault Unit × Files :=
  let file := settingsFile directory
  let temporary := temporaryFile directory
  match settings.check with
  | .error cause => (.error (.invalid cause), files)
  | .ok () =>
    match files.write temporary.location (content settings) disk with
    | (.error cause, left) => (.error (.noTemporary temporary.text cause), left)
    | (.ok (), written) =>
      match written.rename temporary.location file.location disk with
      | (.error cause, left) => (.error (.notMoved file.text cause), left)
      | (.ok (), moved) => (.ok (), moved)

/-- Saves settings in a directory, which is made if it is missing. -/
def saveIn (files : Files) (directory : Place) (settings : Settings) (disk : Disk := {}) :
    Except StoreFault Unit × Files :=
  match files.makeDirectory directory.location disk with
  | (.error cause, left) => (.error (.noDirectory directory.text cause), left)
  | (.ok (), made) => save made directory settings disk

end Store

end DesignTokens

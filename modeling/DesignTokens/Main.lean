import DesignTokens.Command.Run

/-!
# The command line

The program takes a copy of the files that a command can see, runs the command on the copy, and
brings the disk in line with what the command left.  What the disk refuses on the way is told to the
command, whose outcome then reports it.
-/

namespace DesignTokens.Main

/-- What stands at a path on the disk, and why it cannot be read if so; `unreadable` is what stands
there then. -/
def entryAt (unreadable : Entry) (path : String) : IO (Option Entry × Option FileCause) := do
  match ← (IO.FS.Handle.mk path .read).toBaseIO with
  | .error (.permissionDenied file code details) =>
    return (some unreadable, some (.other (toString (IO.Error.permissionDenied file code details))))
  | .error _ => return (none, none)
  | .ok handle =>
    match ← handle.readBinToEnd.toBaseIO with
    | .ok content => return (some (.file content), none)
    | .error _ => return (some .directory, none)

/-- The path of a location, from the root of the disk or from the working directory. -/
def pathOf (absolute : Bool) (location : Location) : String :=
  match absolute, location with
  | true, names => "/" ++ "/".intercalate names
  | false, [] => "."
  | false, names => "/".intercalate names

/-- Whether a place is given from the root of the disk. -/
def isAbsolute (place : Place) : Bool :=
  place.text.startsWith "/"

/-- The part of the disk that a command can see: a directory, those above it, and its two files. -/
def snapshot (directory : Place) : IO (Files × Disk) := do
  let path := pathOf (isAbsolute directory)
  let file := (Store.settingsFile directory).location
  let temporary := (Store.temporaryFile directory).location
  let locations := Files.ancestors directory.location ++ [directory.location]
  let directories ← locations.mapM fun location => do
    return (location, (← entryAt .directory (path location)).1)
  let (kept, read) ← entryAt (.file .empty) (path file)
  let (left, _) ← entryAt (.file .empty) (path temporary)
  let entries := directories ++ [(file, kept), (temporary, left)]
  return (⟨fun location => (entries.lookup location).join⟩, { read })

/-- Why the disk refuses an operation, if it does. -/
def refusal? (operation : IO Unit) : IO (Option FileCause) := do
  match ← operation.toBaseIO with
  | .ok () => return none
  | .error error => return some (.other (toString error))

/-- Brings the disk in line with what a command left, and gives what the disk refuses.  The settings
file is written as the command does it, through the temporary file. -/
def commit (directory : Place) (disk : Disk) (before after : Files) : IO Disk := do
  let path := pathOf (isAbsolute directory)
  let file := (Store.settingsFile directory).location
  let temporary := (Store.temporaryFile directory).location
  let isChanged := fun location => after.entry location ≠ before.entry location
  let write := fun content => do
    match ← refusal? (IO.FS.writeBinFile (path temporary) content) with
    | some cause =>
      let (left, _) ← entryAt (.file .empty) (path temporary)
      return { disk with write := some (cause, left) }
    | none => return disk
  if isChanged directory.location then
    if let some cause ← refusal? (IO.FS.createDirAll (path directory.location)) then
      return { disk with makeDirectory := some (cause, 0) }
  if isChanged file || isChanged temporary then
    match after.entry temporary, after.entry file with
    | some (.file content), _ => write content
    | none, some (.file content) =>
      let disk ← write content
      if disk.write.isSome then return disk
      return { disk with rename := ← refusal? (IO.FS.rename (path temporary) (path file)) }
    | _, _ => return disk
  else return disk

/-- The directory of settings: `TOKENSMITH_CONFIG_DIR`, or else one below the configuration
directory of the user. -/
def settingsDirectory : IO (Option Place) := do
  let place (path : String) : Place := ⟨path, Place.names path⟩
  if let some path ← IO.getEnv Store.directoryVariable then return some (place path)
  if let some path ← IO.getEnv "XDG_CONFIG_HOME" then
    if path.startsWith "/" then return some ((place path).child Store.directoryName)
  let home ← IO.getEnv "HOME"
  return home.map fun path => ((place path).child ".config").child Store.directoryName

/-- Runs a command in a directory of settings. -/
def runIn (directory : Place) (command : Command) : IO UInt32 := do
  let (before, disk) ← snapshot directory
  let (_, after) := command.run before directory disk
  let disk ← commit directory disk before after
  let (outcome, _) := command.run before directory disk
  if let some cause := outcome.ignored then
    IO.eprintln s!"WARN Ignoring configuration: {cause.message}"
  IO.print outcome.output
  if let some failure := outcome.failure then
    IO.eprintln s!"Error: {failure.message}"
  return outcome.exitCode.toUInt32

/-- The exit code for a usage error. -/
def usageStatus : UInt32 := 2

end DesignTokens.Main

open DesignTokens in
/-- Reads the command line and runs it. -/
def main (arguments : List String) : IO UInt32 := do
  match Command.parse? arguments, ← Main.settingsDirectory with
  | none, _ =>
    IO.eprintln s!"error: the arguments of {Command.programName} are not understood"
    return Main.usageStatus
  | some _, none =>
    IO.eprintln "Error: Failed to determine config directory"
    return FailureKind.storage.exitCode.toUInt32
  | some command, some directory => Main.runIn directory command

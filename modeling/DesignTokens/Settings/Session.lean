import DesignTokens.Settings.Store

/-!
# Working with settings

A `Session` holds settings in memory beside the files they are kept in.  `Session.perform` carries
out one action: what fails leaves the settings in memory as they were.
-/

namespace DesignTokens

/-- Settings in memory, and the files. -/
structure Session where
  files : Files := .empty
  settings : Settings := {}

/-- What can be done in a session. -/
inductive SessionAction where
  /-- Gives the settings file its content directly. -/
  | write (content : ByteArray)
  /-- Deletes the settings file. -/
  | remove
  /-- Makes a directory below that of the settings. -/
  | makeDirectory (path : String)
  | load
  | save
  | check
  /-- Changes the settings in memory. -/
  | change (map : Settings → Settings)

/-- Why an action fails. -/
inductive SessionFault where
  | files (cause : FileCause)
  | store (cause : StoreFault)

namespace Session

/-- The session after an operation on its files. -/
def withFiles (session : Session) (result : Except FileCause Unit × Files) :
    Except SessionFault Unit × Session :=
  (result.1.mapError .files, { session with files := result.2 })

/-- The session after settings were loaded. -/
def withSettings (session : Session) :
    Except StoreFault Settings → Except SessionFault Unit × Session
  | .ok settings => (.ok (), { session with settings })
  | .error cause => (.error (.store cause), session)

/-- Carries out an action on a disk. -/
def perform (directory : Place) (session : Session) (action : SessionAction) (disk : Disk := {}) :
    Except SessionFault Unit × Session :=
  match action with
  | .write content =>
    session.withFiles (session.files.write (Store.settingsFile directory).location content disk)
  | .remove => session.withFiles (session.files.remove (Store.settingsFile directory).location disk)
  | .makeDirectory path =>
    session.withFiles (session.files.makeDirectory (directory.child path).location disk)
  | .load => session.withSettings (Store.load session.files directory disk)
  | .save =>
    let (result, files) := Store.save session.files directory session.settings disk
    (result.mapError .store, { session with files })
  | .check => (session.settings.check.mapError fun cause => .store (.invalid cause), session)
  | .change map => (.ok (), { session with settings := map session.settings })

/-- Carries out actions in order, whether they fail or not, each on the disk as it is then. -/
def performAll (directory : Place) (session : Session)
    (steps : List (SessionAction × Disk)) : Session :=
  steps.foldl (fun session step => (session.perform directory step.1 step.2).2) session

end Session

end DesignTokens

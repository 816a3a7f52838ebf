import DesignTokens.Text.Basic

/-!
# Files and directories

`Files` is a tree of files and directories as a map from locations to entries.  Its operations are
those that keeping a settings file needs.  Each is refused for the causes that the tree itself
gives, and by a `Disk` for any other cause: a full disk, an I/O error, missing permissions.  The
files that an operation leaves are given back also where it is refused, since a refused `write` may
have stopped midway.
-/

namespace DesignTokens

/-- The names that lead from the root to an entry. -/
abbrev Location := List String

/-- What stands at a location. -/
inductive Entry where
  | file (content : ByteArray)
  | directory

instance Entry.decidableEq : DecidableEq Entry
  | .directory, .directory => isTrue rfl
  | .directory, .file _ => isFalse nofun
  | .file _, .directory => isFalse nofun
  | .file a, .file b =>
    match ByteArray.instDecidableEq a b with
    | isTrue h => isTrue (congrArg file h)
    | isFalse h => isFalse fun heq => h (file.inj heq)

/-- A tree of files. -/
structure Files where
  /-- What stands at a location, if anything does. -/
  entry : Location → Option Entry

/-- Why an operation on files is refused. -/
inductive FileCause where
  | notFound
  | occupied
  | notDirectory
  | isDirectory
  /-- Any other cause, in the words of the operating system. -/
  | other (text : String)
deriving DecidableEq, Repr

/-- The message of a cause. -/
def FileCause.message : FileCause → String
  | notFound => "No such file or directory (os error 2)"
  | occupied => "File exists (os error 17)"
  | notDirectory => "Not a directory (os error 20)"
  | isDirectory => "Is a directory (os error 21)"
  | other text => text

/-- What a disk refuses, whatever the tree of files allows.  An operation without a cause here is
carried out as far as the tree allows it; `{}` is a disk that refuses nothing. -/
structure Disk where
  /-- Why no file is read. -/
  read : Option FileCause := none
  /-- Why no file is written, and what stands at its location then: what stood there before,
  nothing, or any part of the new content. -/
  write : Option (FileCause × Option Entry) := none
  /-- Why no file is moved; `rename` is atomic, so that nothing has changed then. -/
  rename : Option FileCause := none
  /-- Why no file is deleted. -/
  remove : Option FileCause := none
  /-- Why no directory is made, and how many locations on the way to it have been passed by then. -/
  makeDirectory : Option (FileCause × Nat) := none

namespace Files

/-- A tree in which there is nothing but its root. -/
def empty : Files where
  entry location := if location = [] then some .directory else none

/-- A tree with what stands at one location changed. -/
def set (files : Files) (location : Location) (entry : Option Entry) : Files where
  entry other := if other = location then entry else files.entry other

/-- Whether something stands at a location. -/
def holds (files : Files) (location : Location) : Bool :=
  (files.entry location).isSome

/-- The locations above a location, from the root on. -/
def ancestors (location : Location) : List Location :=
  (List.range location.length).map location.take

/-- Why a location cannot be reached: the first of its ancestors that is not a directory. -/
def obstacle? (files : Files) (location : Location) : Option FileCause :=
  (ancestors location).findSome? fun above =>
    match files.entry above with
    | some .directory => none
    | some (.file _) => some .notDirectory
    | none => some .notFound

/-- The content of a file. -/
def read (files : Files) (location : Location) (disk : Disk := {}) : Except FileCause ByteArray :=
  match disk.read with
  | some cause => .error cause
  | none =>
    match files.entry location with
    | some (.file content) => .ok content
    | some .directory => .error .isDirectory
    | none => .error ((files.obstacle? location).getD .notFound)

/-- Gives a file its content; the file comes to be if its directory is there. -/
def write (files : Files) (location : Location) (content : ByteArray) (disk : Disk := {}) :
    Except FileCause Unit × Files :=
  match disk.write with
  | some (cause, left) => (.error cause, files.set location left)
  | none =>
    match files.obstacle? location with
    | some cause => (.error cause, files)
    | none =>
      match files.entry location with
      | some .directory => (.error .isDirectory, files)
      | _ => (.ok (), files.set location (some (.file content)))

/-- Moves a file over another one. -/
def rename (files : Files) (source target : Location) (disk : Disk := {}) :
    Except FileCause Unit × Files :=
  match disk.rename with
  | some cause => (.error cause, files)
  | none =>
    match files.entry source, files.entry target with
    | none, _ => (.error .notFound, files)
    | some (.file _), some .directory => (.error .isDirectory, files)
    | some .directory, some (.file _) => (.error .notDirectory, files)
    | some entry, _ => (.ok (), (files.set source none).set target (some entry))

/-- Deletes a file. -/
def remove (files : Files) (location : Location) (disk : Disk := {}) :
    Except FileCause Unit × Files :=
  match disk.remove with
  | some cause => (.error cause, files)
  | none =>
    match files.entry location with
    | some (.file _) => (.ok (), files.set location none)
    | some .directory => (.error .isDirectory, files)
    | none => (.error .notFound, files)

/-- A tree with a directory at a location, unless something stands there. -/
def addDirectory (files : Files) (location : Location) : Files :=
  if files.holds location then files else files.set location (some .directory)

/-- Makes a directory and those above it that are missing. -/
def makeDirectory (files : Files) (location : Location) (disk : Disk := {}) :
    Except FileCause Unit × Files :=
  let places := ancestors location ++ [location]
  match disk.makeDirectory with
  | some (cause, count) => (.error cause, (places.take count).foldl addDirectory files)
  | none =>
    if (ancestors location).any fun above => files.entry above matches some (.file _) then
      (.error .notDirectory, files)
    else if files.entry location matches some (.file _) then (.error .occupied, files)
    else (.ok (), places.foldl addDirectory files)

end Files

/-- A place with the text by which it is known to the user. -/
structure Place where
  text : String
  location : Location

namespace Place

/-- The components of a path, separated by `/`; `.` and empty components are dropped. -/
def names (path : String) : List String :=
  (Text.parts '/' path).filter fun name => name ≠ "" && name ≠ "."

/-- A place below another one. -/
def child (place : Place) (path : String) : Place where
  text := if place.text.endsWith "/" then place.text ++ path else s!"{place.text}/{path}"
  location := place.location ++ names path

end Place

end DesignTokens

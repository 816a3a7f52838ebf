import DesignTokens.Number.Shape

/-!
# Document values

A `Datum` is a value of a document, however the document is written: the readers of JSON and TOML
produce it and the printers consume it.  Tables keep the order of their keys, and a key can stand
twice.

A record is read from a table, in which a field it knows may stand only once and others are ignored,
or from a list of its fields in order; an integer serves as a float, but not the other way round.
Where JSON and TOML differ, a `Dialect` says how.
-/

namespace DesignTokens

/-- A value of a document. -/
inductive Datum where
  | null
  | bool (value : Bool)
  | integer (value : Int)
  | float (value : Float)
  | text (value : String)
  | list (items : List Datum)
  | table (fields : List (String × Datum))
  /-- A TOML date, time or date-time. -/
  | moment
  /-- A well-formed literal without a value: a number that overflows `Float`, or a string with a
  lone surrogate.  It may be skipped but not used. -/
  | unreadable

namespace Datum

/-- An array of integers. -/
def integers (values : List Int) : Datum :=
  list (values.map integer)

/-- Sets a key: a key that is there keeps its place and gets the new value, another one goes
last. -/
def put {α : Type} (key : String) (value : α) : List (String × α) → List (String × α)
  | [] => [(key, value)]
  | (k, v) :: fields => if k = key then (key, value) :: fields else (k, v) :: put key value fields

/-- The fields of a list of pairs in which the last value of a key counts, at the place of its
first. -/
def collect {α : Type} (pairs : List (String × α)) : List (String × α) :=
  pairs.foldl (fun fields (key, value) => put key value fields) []

/-- The value of the first field with this key. -/
def get? (key : String) : Datum → Option Datum
  | table fields => fields.lookup key
  | _ => none

end Datum

/-! ### Dialects -/

/-- What a document format leaves to its readers. -/
structure Dialect where
  /-- Whether a list may hold more items than the record read from it has fields. -/
  allowsSurplus : Bool
  /-- Whether a value may stand behind a name that is the only key of a table, as another way of
  writing the name alone. -/
  isVoid : Datum → Bool

/-- In JSON a record takes the whole list, and only `null` may stand behind a name. -/
def Dialect.json : Dialect where
  allowsSurplus := false
  isVoid
    | .null => true
    | _ => false

/-- In TOML surplus items are ignored, and an empty list or table may stand behind a name. -/
def Dialect.toml : Dialect where
  allowsSurplus := true
  isVoid
    | .list items => items.isEmpty
    | .table fields => fields.isEmpty
    | _ => false

namespace Datum

/-! ### Simple values -/

/-- The double nearest to an integer. -/
def floatOfInt (n : Int) : Float :=
  Number.ofNatural (n < 0) n.natAbs

/-- A float; an integer is accepted too. -/
def toFloat? : Datum → Option Float
  | float x => some x
  | integer n => some (floatOfInt n)
  | _ => none

/-- An integer between bounds. -/
def toInt? (least greatest : Int) : Datum → Option Int
  | integer n => if least ≤ n ∧ n ≤ greatest then some n else none
  | _ => none

/-- A byte. -/
def toByte? (datum : Datum) : Option UInt8 :=
  (datum.toInt? 0 255).map fun n => UInt8.ofNat n.toNat

/-- A 32-bit integer. -/
def toInt32? (datum : Datum) : Option Int :=
  datum.toInt? (-0x80000000) 0x7fffffff

/-- A boolean. -/
def toBool? : Datum → Option Bool
  | bool b => some b
  | _ => none

/-- A string. -/
def toText? : Datum → Option String
  | text s => some s
  | _ => none

/-- A list of values that can all be read. -/
def toList? {α : Type} (read : Datum → Option α) : Datum → Option (List α)
  | list items => items.mapM read
  | _ => none

/-- The name of a constructor of an enumeration. -/
def toName? (dialect : Dialect) : Datum → Option String
  | text name => some name
  | table [(name, value)] => if dialect.isVoid value then some name else none
  | _ => none

/-! ### Records -/

/-- The fields of a record with these names. -/
def toFields? (dialect : Dialect) (names : List String) : Datum → Option (List (String × Datum))
  | table fields =>
    if names.all fun name => (fields.filter (·.1 == name)).length ≤ 1 then some fields else none
  | list items =>
    if items.length ≤ names.length || dialect.allowsSurplus then some (names.zip items) else none
  | moment => some []
  | _ => none

/-- The value of a field that must be there. -/
def required {α : Type} (read : Datum → Option α) (name : String) (fields : List (String × Datum)) :
    Option α :=
  (fields.lookup name).bind read

/-- The value of a field that has a default. -/
def withDefault {α : Type} (default : α) (read : Datum → Option α) (name : String)
    (fields : List (String × Datum)) : Option α :=
  match fields.lookup name with
  | none => some default
  | some value => read value

/-- A value that may be written as `null`. -/
def toOption? {α : Type} (read : Datum → Option α) : Datum → Option (Option α)
  | null => some none
  | value => (read value).map some

end Datum

end DesignTokens

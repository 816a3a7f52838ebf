import DesignTokens.Datum

/-!
# The tables of a TOML document

The statements of a document build one tree of tables.  A `Node` remembers how it came to be,
because this decides what may be added to it later: a table has at most one header, a key has one
value, and an inline table is closed.
-/

namespace DesignTokens.Toml

/-- How a table came to be. -/
inductive Origin where
  /-- It has a `[header]` of its own. -/
  | header
  /-- It is a parent in a header `[a.b]`. -/
  | implied
  /-- It is a parent in a dotted key. -/
  | dotted
deriving DecidableEq, Repr

/-- A part of the tree. -/
inductive Node where
  /-- A value to which nothing can be added. -/
  | leaf (value : Datum)
  | branch (origin : Origin) (fields : List (String × Node))
  /-- An array of tables, in the order of their `[[header]]`s. -/
  | series (elements : List Node)

namespace Node

mutual

/-- The value that a part of the tree stands for. -/
def toDatum : Node → Datum
  | leaf value => value
  | branch _ fields => .table (fieldData fields)
  | series elements => .list (elementData elements)

/-- The values of the fields of a table. -/
def fieldData : List (String × Node) → List (String × Datum)
  | [] => []
  | (key, node) :: fields => (key, node.toDatum) :: fieldData fields

/-- The values of an array of tables. -/
def elementData : List Node → List Datum
  | [] => []
  | node :: nodes => node.toDatum :: elementData nodes

end

end Node

/-- The fields of a table. -/
abbrev Fields := List (String × Node)

namespace Fields

open Datum (put)

/-- Adds a value under a dotted key.  The table that holds the value must come from dotted keys.  On
the way to it the path may also pass through an implied table, and through the last element of an
array of tables. -/
def enter (value : Datum) : List String → Fields → Option Fields
  | [], _ => none
  | [key], fields =>
    match fields.lookup key with
    | none => some (fields ++ [(key, .leaf value)])
    | some _ => none
  | key :: next :: path, fields =>
    match fields.lookup key with
    | none => (enter value (next :: path) []).map fun inner =>
      put key (.branch .dotted inner) fields
    | some (.branch .dotted inner) =>
      (enter value (next :: path) inner).map fun inner => put key (.branch .dotted inner) fields
    | some (.branch .implied inner) =>
      if path.isEmpty then none
      else (enter value (next :: path) inner).map fun inner =>
        put key (.branch .implied inner) fields
    | some (.series elements) =>
      if path.isEmpty then none
      else
        match elements.getLast? with
        | some (.branch origin inner) =>
          (enter value (next :: path) inner).map fun inner =>
            put key (.series (elements.dropLast ++ [.branch origin inner])) fields
        | _ => none
    | some _ => none

/-- Changes the fields of the table at a path, which is created if it is missing; an array of tables
stands for its last element. -/
def alter (change : Fields → Option Fields) : List String → Fields → Option Fields
  | [], fields => change fields
  | key :: path, fields =>
    match fields.lookup key with
    | none => (alter change path []).map fun inner => put key (.branch .implied inner) fields
    | some (.branch origin inner) =>
      (alter change path inner).map fun inner => put key (.branch origin inner) fields
    | some (.series elements) =>
      match elements.getLast? with
      | some (.branch origin inner) =>
        (alter change path inner).map fun inner =>
          put key (.series (elements.dropLast ++ [.branch origin inner])) fields
      | _ => none
    | some (.leaf _) => none

/-- `[key]`. -/
def openTable (key : String) (fields : Fields) : Option Fields :=
  match fields.lookup key with
  | none => some (put key (.branch .header []) fields)
  | some (.branch .implied inner) => some (put key (.branch .header inner) fields)
  | some _ => none

/-- `[[key]]`. -/
def openElement (key : String) (fields : Fields) : Option Fields :=
  match fields.lookup key with
  | none => some (put key (.series [.branch .header []]) fields)
  | some (.series elements) => some (put key (.series (elements ++ [.branch .header []])) fields)
  | some _ => none

end Fields

/-- A statement of a document.  Headers give the parents and the last part of their key. -/
inductive Statement where
  | header (tables : List String) (key : String)
  | repeated (tables : List String) (key : String)
  | entry (path : List String) (value : Datum)

/-- The fields of a document as far as it is read, and the path of the header that was last. -/
structure Building where
  fields : Fields
  current : List String

namespace Building

/-- A document without statements. -/
def empty : Building := ⟨[], []⟩

/-- Adds a statement, unless it contradicts an earlier one. -/
def add (building : Building) : Statement → Option Building
  | .header tables key =>
    (building.fields.alter (Fields.openTable key) tables).map (⟨·, tables ++ [key]⟩)
  | .repeated tables key =>
    (building.fields.alter (Fields.openElement key) tables).map (⟨·, tables ++ [key]⟩)
  | .entry path value =>
    (building.fields.alter (Fields.enter value path) building.current).map (⟨·, building.current⟩)

end Building

/-- The value of a document with these statements. -/
def build? (statements : List Statement) : Option Datum :=
  (statements.foldlM Building.add Building.empty).map fun building =>
    .table (Node.fieldData building.fields)

/-- The value of an inline table. -/
def inline? (entries : List (List String × Datum)) : Option Datum :=
  (entries.foldlM (fun fields (path, value) => Fields.enter value path fields) []).map fun fields =>
    .table (Node.fieldData fields)

end DesignTokens.Toml

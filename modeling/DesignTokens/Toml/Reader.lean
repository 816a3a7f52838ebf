import DesignTokens.Toml.Lexical
import DesignTokens.Toml.Scalar
import DesignTokens.Toml.Tree

/-!
# Reading TOML

`Toml.read?` accepts the documents of version 1.1 of the format, with a byte order mark in front or
not.  A document is a list of statements, one on a line: `[table]` and `[[array of tables]]`
headers, and `key = value`.
-/

namespace DesignTokens.Toml

/-! ### Values -/

/-- The maximum nesting of arrays and inline tables. -/
def maxNesting : Nat := 80

/-- Reads a key of an inline table with its `=`, and all layout up to the value. -/
def readAssignedKey (cs : List Char) : Option (List String × List Char) := do
  let (path, cs) ← readPath (cs.length + 1) cs
  match ← skipLayout false cs with
  | '=' :: cs => (skipLayout false cs).map fun cs => (path, cs)
  | _ => none

mutual

/-- Reads a value that nests at most `depth` arrays and inline tables.  The fuel bounds the number
of nested calls. -/
def readValue : (fuel depth : Nat) → List Char → Option (Datum × List Char)
  | 0, _, _ => none
  | fuel + 1, depth, cs =>
    match cs with
    | '"' :: _ | '\x27' :: _ => (readText cs).map fun (text, cs) => (.text (String.ofList text), cs)
    | '[' :: cs =>
      match depth with
      | 0 => none
      | depth + 1 => (readItems fuel depth cs).map fun (items, cs) => (.list items, cs)
    | '\x7b' :: cs =>
      match depth with
      | 0 => none
      | depth + 1 =>
        match readEntries fuel depth cs with
        | none => none
        | some (entries, cs) => (inline? entries).map fun value => (value, cs)
    | cs =>
      let (atom, cs) := spanAtom cs
      (scalar? atom).map fun value => (value, cs)

/-- Reads the elements of an array up to its `]`; a comma may follow the last. -/
def readItems : (fuel depth : Nat) → List Char → Option (List Datum × List Char)
  | 0, _, _ => none
  | fuel + 1, depth, cs =>
    match skipLayout false cs with
    | none => none
    | some (']' :: cs) => some ([], cs)
    | some cs =>
      match readValue fuel depth cs with
      | none => none
      | some (item, cs) =>
        match skipLayout false cs with
        | some (']' :: cs) => some ([item], cs)
        | some (',' :: cs) => (readItems fuel depth cs).map fun (items, cs) => (item :: items, cs)
        | _ => none

/-- Reads the entries of an inline table up to its `}`; a comma may follow the last.  Lines may end
anywhere but inside a key. -/
def readEntries : (fuel depth : Nat) → List Char → Option (List (List String × Datum) × List Char)
  | 0, _, _ => none
  | fuel + 1, depth, cs =>
    match skipLayout false cs with
    | none => none
    | some ('\x7d' :: cs) => some ([], cs)
    | some cs =>
      match readAssignedKey cs with
      | none => none
      | some (path, cs) =>
        match readValue fuel depth cs with
        | none => none
        | some (value, cs) =>
          match skipLayout false cs with
          | some ('\x7d' :: cs) => some ([(path, value)], cs)
          | some (',' :: cs) =>
            (readEntries fuel depth cs).map fun (entries, cs) => ((path, value) :: entries, cs)
          | _ => none

end

/-! ### Statements -/

/-- A path without its last part, and that part. -/
def splitLast? (path : List String) : Option (List String × String) :=
  path.getLast?.map fun key => (path.dropLast, key)

/-- Reads one statement. -/
def readStatement : List Char → Option (Statement × List Char)
  | '[' :: '[' :: cs => do
    let (path, cs) ← readPath (cs.length + 1) cs
    let (tables, key) ← splitLast? path
    match cs with
    | ']' :: ']' :: cs => some (.repeated tables key, cs)
    | _ => none
  | '[' :: cs => do
    let (path, cs) ← readPath (cs.length + 1) cs
    let (tables, key) ← splitLast? path
    match cs with
    | ']' :: cs => some (.header tables key, cs)
    | _ => none
  | cs => do
    let (path, cs) ← readPath (cs.length + 1) cs
    match cs with
    | '=' :: cs => do
      let (value, cs) ← readValue (2 * cs.length + 2) maxNesting (skipBlanks cs)
      some (.entry path value, cs)
    | _ => none

/-- Reads the statements of a document.  The fuel bounds their number. -/
def readStatements : (fuel : Nat) → List Char → Option (List Statement)
  | 0, _ => none
  | fuel + 1, cs =>
    match skipLayout false cs with
    | none => none
    | some [] => some []
    | some cs =>
      match readStatement cs with
      | none => none
      | some (statement, cs) =>
        match endLine? cs with
        | none => none
        | some cs => (readStatements fuel cs).map (statement :: ·)

/-- Drops a leading byte order mark. -/
def dropByteOrderMark : List Char → List Char
  | '\ufeff' :: cs => cs
  | cs => cs

/-- Reads a document. -/
def read? (document : String) : Option Datum :=
  let cs := dropByteOrderMark document.toList
  (readStatements (cs.length + 1) cs).bind build?

end DesignTokens.Toml

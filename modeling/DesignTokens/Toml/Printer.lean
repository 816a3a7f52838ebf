import DesignTokens.Datum
import DesignTokens.Number.Text
import DesignTokens.Toml.Lexical

/-!
# Writing TOML

`Toml.write` writes a document of tables, each a `[header]` and one line for each key, with an empty
line between tables.  An array with more than one element has one element on each line.
-/

namespace DesignTokens.Toml

open Number

/-- A magnitude with at least one digit after the point. -/
def layout (d : Decimal) : List Char :=
  if d.exponent < 0 then d.positional else d.positional ++ ['.', '0']

/-- Floats keep a fraction, have no exponent and break ties upward. -/
def floatStyle : Style where
  nan := "nan"
  tie := .up
  layout := layout

/-- A character inside a basic string; one that may not stand there is written `\uXXXX`. -/
def escape (c : Char) : List Char :=
  if isPlain c && c != '"' && c != '\\' then [c]
  else ['\\', 'u', '0', '0', Nat.digitChar (c.toNat / 16), Nat.digitChar (c.toNat % 16)]

/-- A basic string. -/
def text (s : String) : List Char :=
  '"' :: (s.toList.flatMap escape ++ ['"'])

/-- An integer. -/
def integer (n : Int) : List Char :=
  signed (n < 0) (Nat.toDigits 10 n.natAbs)

/-- The items of a list on lines of their own. -/
def itemLines (items : List (List Char)) : List Char :=
  items.flatMap fun item => "\n    ".toList ++ item ++ [',']

/-- A list of written items. -/
def list : List (List Char) → List Char
  | [] => ['[', ']']
  | [item] => '[' :: (item ++ [']'])
  | items => '[' :: (itemLines items ++ ['\n', ']'])

mutual

/-- A value; one that TOML does not have is written `""`. -/
def value : Datum → List Char
  | .bool true => "true".toList
  | .bool false => "false".toList
  | .integer n => integer n
  | .float x => (floatStyle.write x).toList
  | .text s => text s
  | .list items => list (values items)
  | .null | .table _ | .moment | .unreadable => text ""

/-- The values of a list. -/
def values : List Datum → List (List Char)
  | [] => []
  | item :: items => value item :: values items

end

/-- The line of an entry. -/
def entry (key : String) (datum : Datum) : List Char :=
  key.toList ++ " = ".toList ++ value datum ++ ['\n']

/-- A section: its header and its entries. -/
def writeSection (name : String) (entries : List (String × Datum)) : List Char :=
  '[' :: (name.toList ++ ']' :: '\n' :: entries.flatMap fun (key, datum) => entry key datum)

/-- A document of sections. -/
def write (sections : List (String × List (String × Datum))) : String :=
  String.ofList (['\n'].intercalate (sections.map fun (name, entries) => writeSection name entries))

end DesignTokens.Toml

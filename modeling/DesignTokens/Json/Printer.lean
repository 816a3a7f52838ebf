import DesignTokens.Datum
import DesignTokens.Number.Text

/-!
# Writing JSON

`Json.compact` writes a document value without blanks, `Json.pretty` with one entry on each line,
indented by two spaces.  Strings escape what JSON requires and nothing else; NaN and `±∞` are
written `null`.
-/

namespace DesignTokens.Json

open Number

/-! ### Numbers -/

/-- Whether a magnitude is written without an exponent: from `10 ^ -5` up to below `10 ^ 16`. -/
def isPositional (d : Decimal) : Bool :=
  -5 ≤ d.magnitude && d.magnitude < 16

/-- A magnitude with at least one digit after the point, or with an exponent. -/
def layout (d : Decimal) : List Char :=
  if isPositional d then
    if d.exponent < 0 then d.positional else d.positional ++ ['.', '0']
  else d.scientific

/-- Floats keep a fraction, get an exponent when very large or very small, and break ties to
even. -/
def floatStyle : Style where
  nan := "null"
  tie := .even
  layout := layout

/-- A float; NaN and `±∞` are `null`. -/
def float (x : Float) : List Char :=
  if x.isFinite then (floatStyle.write x).toList else "null".toList

/-- An integer. -/
def integer (n : Int) : List Char :=
  signed (n < 0) (Nat.toDigits 10 n.natAbs)

/-! ### Strings -/

/-- A control character without a short escape, as four hexadecimal digits. -/
def unicodeEscape (c : Char) : List Char :=
  ['\\', 'u', '0', '0', Nat.digitChar (c.toNat / 16), Nat.digitChar (c.toNat % 16)]

/-- A character inside a string. -/
def escape (c : Char) : List Char :=
  if c = '"' then ['\\', '"']
  else if c = '\\' then ['\\', '\\']
  else if c = '\x08' then ['\\', 'b']
  else if c = '\x0c' then ['\\', 'f']
  else if c = '\n' then ['\\', 'n']
  else if c = '\r' then ['\\', 'r']
  else if c = '\t' then ['\\', 't']
  else if c.toNat < 0x20 then unicodeEscape c
  else [c]

/-- A string in double quotes. -/
def text (s : String) : List Char :=
  '"' :: (s.toList.flatMap escape ++ ['"'])

/-! ### Documents -/

mutual

/-- A document value without blanks. -/
def compactChars : Datum → List Char
  | .bool true => "true".toList
  | .bool false => "false".toList
  | .integer n => integer n
  | .float x => float x
  | .text s => text s
  | .list [] => ['[', ']']
  | .list (item :: items) => '[' :: (compactChars item ++ compactItems items)
  | .table [] => ['\x7b', '\x7d']
  | .table ((key, value) :: fields) =>
    '\x7b' :: (text key ++ ':' :: (compactChars value ++ compactFields fields))
  | .null | .moment | .unreadable => "null".toList

/-- The items after the first, and the closing bracket. -/
def compactItems : List Datum → List Char
  | [] => [']']
  | item :: items => ',' :: (compactChars item ++ compactItems items)

/-- The fields after the first, and the closing brace. -/
def compactFields : List (String × Datum) → List Char
  | [] => ['\x7d']
  | (key, value) :: fields =>
    ',' :: (text key ++ ':' :: (compactChars value ++ compactFields fields))

end

/-- A line break and the indentation of a depth. -/
def newline (depth : Nat) : List Char :=
  '\n' :: List.replicate (2 * depth) ' '

mutual

/-- A document value with one entry on each line, inside `depth` enclosing values. -/
def prettyChars (depth : Nat) : Datum → List Char
  | .bool true => "true".toList
  | .bool false => "false".toList
  | .integer n => integer n
  | .float x => float x
  | .text s => text s
  | .list [] => ['[', ']']
  | .list (item :: items) =>
    '[' :: (newline (depth + 1) ++ prettyChars (depth + 1) item ++ prettyItems depth items)
  | .table [] => ['\x7b', '\x7d']
  | .table ((key, value) :: fields) =>
    '\x7b' :: (newline (depth + 1) ++ text key ++ ':' :: ' ' :: prettyChars (depth + 1) value
      ++ prettyFields depth fields)
  | .null | .moment | .unreadable => "null".toList

/-- The items after the first, and the closing bracket. -/
def prettyItems (depth : Nat) : List Datum → List Char
  | [] => newline depth ++ [']']
  | item :: items =>
    ',' :: (newline (depth + 1) ++ prettyChars (depth + 1) item ++ prettyItems depth items)

/-- The fields after the first, and the closing brace. -/
def prettyFields (depth : Nat) : List (String × Datum) → List Char
  | [] => newline depth ++ ['\x7d']
  | (key, value) :: fields =>
    ',' :: (newline (depth + 1) ++ text key ++ ':' :: ' ' :: prettyChars (depth + 1) value
      ++ prettyFields depth fields)

end

/-- A document value as text without blanks. -/
def compact (value : Datum) : String :=
  String.ofList (compactChars value)

/-- A document value as indented text. -/
def pretty (value : Datum) : String :=
  String.ofList (prettyChars 0 value)

end DesignTokens.Json

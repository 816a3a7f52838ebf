import DesignTokens.Datum
import DesignTokens.Number.Literal
import DesignTokens.Text.Basic

/-!
# Reading JSON

`Json.read?` accepts exactly the documents of JSON.  A number without fraction and exponent is an
integer if it fits into 64 bits; every other number is a float, and so is `-0`.  A float literal
that overflows and a string with a lone surrogate are well formed, but `unreadable`.
-/

namespace DesignTokens.Json

open Number

/-- The whitespace of JSON. -/
def isSpace (c : Char) : Bool :=
  c == ' ' || c == '\t' || c == '\n' || c == '\r'

/-- Drops leading whitespace. -/
def skipSpace (cs : List Char) : List Char :=
  cs.dropWhile isSpace

/-! ### Strings -/

/-- Whether a code unit is a high surrogate. -/
def isHighHalf (n : Nat) : Bool := 0xd800 ≤ n && n < 0xdc00

/-- Whether a code unit is a low surrogate. -/
def isLowHalf (n : Nat) : Bool := 0xdc00 ≤ n && n < 0xe000

/-- The character of a surrogate pair. -/
def joinHalves (high low : Nat) : Char :=
  Char.ofNat (0x10000 + (high - 0xd800) * 0x400 + (low - 0xdc00))

/-- The character of a short escape. -/
def shortEscape? : Char → Option Char
  | '"' => some '"'
  | '\\' => some '\\'
  | '/' => some '/'
  | 'b' => some '\x08'
  | 'f' => some '\x0c'
  | 'n' => some '\n'
  | 'r' => some '\r'
  | 't' => some '\t'
  | _ => none

/-- Reads a string behind its opening quote as code points, `\uXXXX` as the code unit it names. -/
def readCodes : List Char → Option (List Nat × List Char)
  | [] => none
  | '"' :: cs => some ([], cs)
  | '\\' :: 'u' :: a :: b :: c :: d :: cs =>
    match Text.ofHexDigits? [a, b, c, d] with
    | none => none
    | some n => (readCodes cs).map fun (codes, cs) => (n :: codes, cs)
  | '\\' :: c :: cs =>
    match shortEscape? c with
    | none => none
    | some c => (readCodes cs).map fun (codes, cs) => (c.toNat :: codes, cs)
  | c :: cs =>
    if c == '\\' || c.toNat < 0x20 then none
    else (readCodes cs).map fun (codes, cs) => (c.toNat :: codes, cs)

/-- The characters of code points, with surrogate pairs joined; `none` for a lone surrogate. -/
def joinCodes : List Nat → Option (List Char)
  | [] => some []
  | [n] => if isHighHalf n || isLowHalf n then none else some [Char.ofNat n]
  | n :: m :: codes =>
    if isHighHalf n then
      if isLowHalf m then (joinCodes codes).map (joinHalves n m :: ·) else none
    else if isLowHalf n then none
    else (joinCodes (m :: codes)).map (Char.ofNat n :: ·)

/-- The value of a string. -/
def textDatum (codes : List Nat) : Datum :=
  match joinCodes codes with
  | some cs => .text (String.ofList cs)
  | none => .unreadable

/-! ### Numbers -/

/-- The integer part of a number: `0`, or digits that do not begin with `0`. -/
def spanWhole : List Char → Option (List Char × List Char)
  | '0' :: cs => some (['0'], cs)
  | cs =>
    match spanDigits cs with
    | ([], _) => none
    | (ds, cs) => some (ds, cs)

/-- The fraction of a number: nothing, or `.` and at least one digit. -/
def spanFractionPart : List Char → Option (List Char × List Char)
  | '.' :: cs =>
    match spanDigits cs with
    | ([], _) => none
    | (ds, cs) => some (ds, cs)
  | cs => some ([], cs)

/-- An exponent behind its `e` or `E`. -/
def spanSignedDigits (cs : List Char) : Option (Int × List Char) :=
  let (negative, cs) := spanSign cs
  match spanDigits cs with
  | ([], _) => none
  | (ds, cs) => some (withSign negative (Nat.ofDigitChars 10 ds 0), cs)

/-- The exponent of a number, if it has one. -/
def spanExponent : List Char → Option (Option Int × List Char)
  | 'e' :: cs => (spanSignedDigits cs).map fun (n, cs) => (some n, cs)
  | 'E' :: cs => (spanSignedDigits cs).map fun (n, cs) => (some n, cs)
  | cs => some (none, cs)

/-- A float, unless it overflows. -/
def floatDatum (negative : Bool) (d : Decimal) : Datum :=
  let x := d.toFloat
  if x.isFinite then .float (negateIf negative x) else .unreadable

/-- A number without fraction and exponent. -/
def wholeDatum (negative : Bool) (ds : List Char) : Datum :=
  let n := Nat.ofDigitChars 10 ds 0
  if negative then
    if 0 < n ∧ n ≤ 0x8000000000000000 then .integer (-(n : Int)) else floatDatum true ⟨n, 0⟩
  else if n ≤ 0xffffffffffffffff then .integer n
  else floatDatum false ⟨n, 0⟩

/-- The minus sign of a number. -/
def spanMinus : List Char → Bool × List Char
  | '-' :: cs => (true, cs)
  | cs => (false, cs)

/-- Reads a number. -/
def readNumber (cs : List Char) : Option (Datum × List Char) := do
  let (negative, cs) := spanMinus cs
  let (whole, cs) ← spanWhole cs
  let (fraction, cs) ← spanFractionPart cs
  let (exponent, cs) ← spanExponent cs
  if fraction.isEmpty && exponent.isNone then return (wholeDatum negative whole, cs)
  else return (floatDatum negative (Decimal.ofDigits whole fraction (exponent.getD 0)), cs)

/-! ### Documents -/

/-- Reads the key of a field behind its opening quote, and the colon after it. -/
def readKey (cs : List Char) : Option (String × List Char) := do
  let (codes, cs) ← readCodes cs
  let key ← joinCodes codes
  match skipSpace cs with
  | ':' :: cs => some (String.ofList key, cs)
  | _ => none

mutual

/-- Reads a value.  The fuel bounds the number of nested calls. -/
def readValue : (fuel : Nat) → List Char → Option (Datum × List Char)
  | 0, _ => none
  | fuel + 1, cs =>
    match skipSpace cs with
    | '"' :: cs => (readCodes cs).map fun (codes, cs) => (textDatum codes, cs)
    | '[' :: cs =>
      match skipSpace cs with
      | ']' :: cs => some (.list [], cs)
      | cs => (readItems fuel cs).map fun (items, cs) => (.list items, cs)
    | '\x7b' :: cs =>
      match skipSpace cs with
      | '\x7d' :: cs => some (.table [], cs)
      | cs => (readFields fuel cs).map fun (fields, cs) => (.table fields, cs)
    | 't' :: 'r' :: 'u' :: 'e' :: cs => some (.bool true, cs)
    | 'f' :: 'a' :: 'l' :: 's' :: 'e' :: cs => some (.bool false, cs)
    | 'n' :: 'u' :: 'l' :: 'l' :: cs => some (.null, cs)
    | cs => readNumber cs

/-- Reads the elements of an array up to its `]`. -/
def readItems : (fuel : Nat) → List Char → Option (List Datum × List Char)
  | 0, _ => none
  | fuel + 1, cs =>
    match readValue fuel cs with
    | none => none
    | some (item, cs) =>
      match skipSpace cs with
      | ']' :: cs => some ([item], cs)
      | ',' :: cs => (readItems fuel cs).map fun (items, cs) => (item :: items, cs)
      | _ => none

/-- Reads the members of an object up to its `}`. -/
def readFields : (fuel : Nat) → List Char → Option (List (String × Datum) × List Char)
  | 0, _ => none
  | fuel + 1, cs =>
    match skipSpace cs with
    | '"' :: cs =>
      match readKey cs with
      | none => none
      | some (key, cs) =>
        match readValue fuel cs with
        | none => none
        | some (value, cs) =>
          match skipSpace cs with
          | '\x7d' :: cs => some ([(key, value)], cs)
          | ',' :: cs => (readFields fuel cs).map fun (fields, cs) => ((key, value) :: fields, cs)
          | _ => none
    | _ => none

end

/-- Reads a document. -/
def read? (document : String) : Option Datum :=
  let cs := document.toList
  match readValue (2 * cs.length + 2) cs with
  | some (value, rest) => if (skipSpace rest).isEmpty then some value else none
  | none => none

end DesignTokens.Json

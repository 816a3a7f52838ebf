import DesignTokens.Datum
import DesignTokens.Number.Literal
import DesignTokens.Text.Basic
import DesignTokens.Toml.Moment

/-!
# Unquoted values of TOML

An unquoted value is an atom, the longest run of letters, digits, signs, points, colons and
underscores: a boolean, an integer in base 10, 16, 8 or 2, a float or a moment.  An underscore may
divide two digits.  An integer of more than 64 bits is well formed up to 128 bits, but `unreadable`;
a float must not overflow.
-/

namespace DesignTokens.Toml

open Number

/-! ### Atoms -/

/-- Whether a character can stand in an atom. -/
def isAtom (c : Char) : Bool :=
  c.isAlphanum || c == '+' || c == '-' || c == '_' || c == '.' || c == ':'

/-- The leading atom, and the rest.  A date takes a time behind one space with it. -/
def spanAtom (cs : List Char) : List Char × List Char :=
  let atom := cs.takeWhile isAtom
  match cs.dropWhile isAtom with
  | ' ' :: c :: cs =>
    if c.isDigit && isDate atom then
      (atom ++ ' ' :: (c :: cs).takeWhile isAtom, (c :: cs).dropWhile isAtom)
    else (atom, ' ' :: c :: cs)
  | rest => (atom, rest)

/-! ### Digits -/

/-- Digits without their underscores; `none` if there is no digit, or an underscore without a digit
on both sides. -/
def ungroup (isDigit : Char → Bool) : List Char → Option (List Char)
  | [] => none
  | [c] => if isDigit c then some [c] else none
  | c :: '_' :: cs => if isDigit c then (ungroup isDigit cs).map (c :: ·) else none
  | c :: cs => if isDigit c then (ungroup isDigit cs).map (c :: ·) else none

/-- Decimal digits without a leading zero. -/
def wholeDigits? (cs : List Char) : Option (List Char) :=
  match ungroup Char.isDigit cs with
  | some ('0' :: _ :: _) => none
  | digits => digits

/-- The value of digits in a base; underscores may separate them. -/
def ofBase? (base : Nat) (cs : List Char) : Option Nat := do
  let cs ← ungroup (fun c => (Text.hexDigit? c).any (· < base)) cs
  let digits ← cs.mapM Text.hexDigit?
  return Text.ofDigitValues base digits

/-! ### Numbers -/

/-- Whether an integer fits into a number of bits, signed or unsigned. -/
def fits (bits : Nat) (n : Int) : Bool :=
  -(Nat.pow 2 (bits - 1) : Int) ≤ n && n < Nat.pow 2 bits

/-- An integer as a value: readable up to 64 bits, well formed up to 128. -/
def wholeDatum? (n : Int) : Option Datum :=
  if fits 64 n then some (.integer n) else if fits 128 n then some .unreadable else none

/-- `0x…`, `0o…` or `0b…`. -/
def basedDatum? : List Char → Option Datum
  | '0' :: 'x' :: cs => (ofBase? 16 cs).bind fun n => wholeDatum? n
  | '0' :: 'o' :: cs => (ofBase? 8 cs).bind fun n => wholeDatum? n
  | '0' :: 'b' :: cs => (ofBase? 2 cs).bind fun n => wholeDatum? n
  | _ => none

/-- A digit or an underscore. -/
def isGrouped (c : Char) : Bool :=
  c.isDigit || c == '_'

/-- The fraction of a float: nothing, or `.` and digits. -/
def readFraction : List Char → Option (List Char × List Char)
  | '.' :: cs => (ungroup Char.isDigit (cs.takeWhile isGrouped)).map fun ds =>
    (ds, cs.dropWhile isGrouped)
  | cs => some ([], cs)

/-- The exponent of a float: nothing, or `e` or `E`, an optional sign and digits to the end. -/
def exponent? : List Char → Option Int
  | [] => some 0
  | c :: cs =>
    if c = 'e' ∨ c = 'E' then
      let (negative, cs) := spanSign cs
      (ungroup Char.isDigit cs).map fun ds => withSign negative (Nat.ofDigitChars 10 ds 0)
    else none

/-- A decimal number without its sign. -/
def decimalDatum? (negative : Bool) (cs : List Char) : Option Datum :=
  match wholeDigits? (cs.takeWhile isGrouped), cs.dropWhile isGrouped with
  | none, _ => none
  | some whole, [] => wholeDatum? (withSign negative (Nat.ofDigitChars 10 whole 0))
  | some whole, rest => do
    let (fraction, rest) ← readFraction rest
    let exponent ← exponent? rest
    let x := (Decimal.ofDigits whole fraction exponent).toFloat
    if x.isFinite then some (.float (negateIf negative x)) else none

/-- `inf` and `nan`. -/
def special? (negative : Bool) (cs : List Char) : Option Datum :=
  if cs = ['i', 'n', 'f'] then some (.float (negateIf negative (1.0 / 0.0)))
  else if cs = ['n', 'a', 'n'] then some (.float (negateIf negative (0.0 / 0.0)))
  else none

/-! ### Values -/

/-- The value of an atom. -/
def scalar? (cs : List Char) : Option Datum :=
  if cs = ['t', 'r', 'u', 'e'] then some (.bool true)
  else if cs = ['f', 'a', 'l', 's', 'e'] then some (.bool false)
  else if isMoment cs then some .moment
  else
    let (negative, digits) := spanSign cs
    (basedDatum? cs).or ((special? negative digits).or (decimalDatum? negative digits))

end DesignTokens.Toml

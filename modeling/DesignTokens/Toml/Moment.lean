/-!
# Dates and times of TOML

A moment is a local date, a local time, or a date-time with an optional offset.  `isMoment` decides
the form and the ranges: months have their true length in leap years and others, hours go up to 23,
and a sixtieth second is allowed.  The seconds may be left out.
-/

namespace DesignTokens.Toml

/-- Reads exactly `count` digits. -/
def readDigits (count : Nat) (cs : List Char) : Option (Nat × List Char) :=
  let digits := cs.take count
  if digits.length = count ∧ digits.all Char.isDigit then
    some (Nat.ofDigitChars 10 digits 0, cs.drop count)
  else none

/-- What follows a character at the front of a text. -/
def expect (c : Char) : List Char → Option (List Char)
  | d :: cs => if d = c then some cs else none
  | [] => none

/-- Whether a year is a leap year. -/
def isLeap (year : Nat) : Bool :=
  year % 4 == 0 && (year % 100 != 0 || year % 400 == 0)

/-- The number of days of a month. -/
def daysIn (year month : Nat) : Nat :=
  if month = 2 then if isLeap year then 29 else 28
  else if month ∈ [4, 6, 9, 11] then 30
  else 31

/-- What follows a date. -/
def readDate (cs : List Char) : Option (List Char) := do
  let (year, cs) ← readDigits 4 cs
  let cs ← expect '-' cs
  let (month, cs) ← readDigits 2 cs
  let cs ← expect '-' cs
  let (day, cs) ← readDigits 2 cs
  if 1 ≤ month ∧ month ≤ 12 ∧ 1 ≤ day ∧ day ≤ daysIn year month then some cs else none

/-- What follows the fraction of a second, if there is one. -/
def readSecondFraction : List Char → Option (List Char)
  | '.' :: cs =>
    match cs.takeWhile Char.isDigit with
    | [] => none
    | _ => some (cs.dropWhile Char.isDigit)
  | cs => some cs

/-- What follows the seconds with their fraction, if there are any. -/
def readSeconds : List Char → Option (List Char)
  | ':' :: cs => do
    let (second, cs) ← readDigits 2 cs
    if second ≤ 60 then readSecondFraction cs else none
  | cs => some cs

/-- What follows hours and minutes. -/
def readHourMinute (cs : List Char) : Option (List Char) := do
  let (hour, cs) ← readDigits 2 cs
  let cs ← expect ':' cs
  let (minute, cs) ← readDigits 2 cs
  if hour ≤ 23 ∧ minute ≤ 59 then some cs else none

/-- What follows a time of day. -/
def readTime (cs : List Char) : Option (List Char) :=
  (readHourMinute cs).bind readSeconds

/-- Whether a text is an offset, or empty. -/
def isOffset : List Char → Bool
  | [] => true
  | c :: cs =>
    if c = 'Z' ∨ c = 'z' then cs.isEmpty
    else if c = '+' ∨ c = '-' then readHourMinute cs == some []
    else false

/-- Whether a text is a date. -/
def isDate (cs : List Char) : Bool :=
  readDate cs == some []

/-- Whether a text is a time of day with an optional offset. -/
def isOffsetTime (cs : List Char) : Bool :=
  match readTime cs with
  | some cs => isOffset cs
  | none => false

/-- Whether a text is a date, a time, or a date and a time divided by a `T` or a space. -/
def isMoment (cs : List Char) : Bool :=
  match readDate cs with
  | none => readTime cs == some []
  | some [] => true
  | some (c :: cs) => (c == 'T' || c == 't' || c == ' ') && isOffsetTime cs

end DesignTokens.Toml

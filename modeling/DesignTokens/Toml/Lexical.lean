import DesignTokens.Text.Basic

/-!
# Layout, strings and keys of TOML

The tokens of a document are separated by spaces and tabs, by line breaks (`\n` or `\r\n`) and by
comments, which run from `#` to the end of the line.  `endLine?` passes over what may follow a
statement on its line, `skipLayout` over everything up to the next part.

A basic string is delimited by `"` and has escapes, a literal string is delimited by `'` and has
none; a multi-line string is delimited by three of them.  A key is one or more parts joined by dots,
each a bare key or a single-line string.
-/

namespace DesignTokens.Toml

/-! ### Layout -/

/-- Space and tab. -/
def isBlank (c : Char) : Bool :=
  c == ' ' || c == '\t'

/-- Drops leading spaces and tabs. -/
def skipBlanks (cs : List Char) : List Char :=
  cs.dropWhile isBlank

/-- Whether a character may stand in a comment or unescaped in a string: no control character but
the tab. -/
def isPlain (c : Char) : Bool :=
  c == '\t' || (0x20 ≤ c.toNat && c.toNat ≠ 0x7f)

/-- What follows a leading line break. -/
def lineBreak? : List Char → Option (List Char)
  | '\n' :: cs => some cs
  | '\r' :: '\n' :: cs => some cs
  | _ => none

/-- Drops a leading comment. -/
def skipComment : List Char → List Char
  | '#' :: cs => cs.dropWhile isPlain
  | cs => cs

/-- What follows the rest of a line, which may only be blank or a comment. -/
def endLine? (cs : List Char) : Option (List Char) :=
  match skipComment (skipBlanks cs) with
  | [] => some []
  | cs => lineBreak? cs

/-- Drops leading blanks, line breaks and comments; `none` if a comment has a control character. -/
def skipLayout : (inComment : Bool) → List Char → Option (List Char)
  | _, [] => some []
  | _, '\n' :: cs => skipLayout false cs
  | _, '\r' :: '\n' :: cs => skipLayout false cs
  | true, c :: cs => if isPlain c then skipLayout true cs else none
  | false, c :: cs =>
    if c = '#' then skipLayout true cs else if isBlank c then skipLayout false cs
    else some (c :: cs)

/-- Drops leading blanks and line breaks. -/
def skipLines : List Char → List Char
  | [] => []
  | '\n' :: cs => skipLines cs
  | '\r' :: '\n' :: cs => skipLines cs
  | c :: cs => if isBlank c then skipLines cs else c :: cs

/-! ### Escapes -/

/-- The character of a short escape. -/
def shortEscape? : Char → Option Char
  | 'b' => some '\x08'
  | 't' => some '\t'
  | 'n' => some '\n'
  | 'f' => some '\x0c'
  | 'r' => some '\r'
  | 'e' => some '\x1b'
  | '"' => some '"'
  | '\\' => some '\\'
  | _ => none

/-- The character with a code, unless the code is a surrogate or above `0x10FFFF`. -/
def charOfCode? (code : Nat) : Option Char :=
  if code < 0xd800 ∨ (0xdfff < code ∧ code < 0x110000) then some (Char.ofNat code) else none

/-- The character that hexadecimal digits name. -/
def charOfDigits? (digits : List Char) : Option Char :=
  (Text.ofHexDigits? digits).bind charOfCode?

/-- The number of digits of `\x`, `\u` and `\U`. -/
def codeDigits? : Char → Option Nat
  | 'x' => some 2
  | 'u' => some 4
  | 'U' => some 8
  | _ => none

/-- Reads an escape behind its backslash. -/
def readEscape : List Char → Option (Char × List Char)
  | [] => none
  | letter :: cs =>
    match codeDigits? letter with
    | none => (shortEscape? letter).map fun c => (c, cs)
    | some count =>
      if cs.length < count then none
      else (charOfDigits? (cs.take count)).map fun c => (c, cs.drop count)

/-! ### Single-line strings -/

/-- Reads a basic string up to its closing `"`.  The fuel bounds the number of characters. -/
def readBasic : (fuel : Nat) → List Char → Option (List Char × List Char)
  | 0, _ => none
  | _ + 1, [] => none
  | fuel + 1, c :: cs =>
    if c = '"' then some ([], cs)
    else if c = '\\' then
      match readEscape cs with
      | none => none
      | some (c, cs) => (readBasic fuel cs).map fun (text, cs) => (c :: text, cs)
    else if isPlain c then (readBasic fuel cs).map fun (text, cs) => (c :: text, cs)
    else none

/-- Whether a character may stand in a literal string. -/
def isLiteral (c : Char) : Bool :=
  isPlain c && c ≠ '\x27'

/-- Reads a literal string up to its closing `'`. -/
def readLiteral (cs : List Char) : Option (List Char × List Char) :=
  match cs.dropWhile isLiteral with
  | '\x27' :: rest => some (cs.takeWhile isLiteral, rest)
  | _ => none

/-! ### Multi-line strings -/

/-- The end of a multi-line string: three quotes, and up to two before them that belong to the
string. -/
def closing? (mark : Char) (cs : List Char) : Option (List Char × List Char) :=
  let marks := (cs.takeWhile (· == mark)).length
  if marks < 3 then none
  else
    let extra := min (marks - 3) 2
    some (List.replicate extra mark, cs.drop (extra + 3))

/-- What follows a line-ending backslash, from the next character that is not blank. -/
def continuation? (cs : List Char) : Option (List Char) :=
  (lineBreak? (skipBlanks cs)).map skipLines

/-- Reads a multi-line string up to its closing quotes; it has escapes if the quote is `"`. -/
def readLines (mark : Char) : (fuel : Nat) → List Char → Option (List Char × List Char)
  | 0, _ => none
  | fuel + 1, cs =>
    match closing? mark cs, lineBreak? cs, cs with
    | some result, _, _ => some result
    | none, some cs, _ => (readLines mark fuel cs).map fun (text, cs) => ('\n' :: text, cs)
    | none, none, [] => none
    | none, none, c :: cs =>
      if c = '\\' ∧ mark = '"' then
        match continuation? cs, readEscape cs with
        | some cs, _ => readLines mark fuel cs
        | none, some (c, cs) => (readLines mark fuel cs).map fun (text, cs) => (c :: text, cs)
        | none, none => none
      else if isPlain c then (readLines mark fuel cs).map fun (text, cs) => (c :: text, cs)
      else none

/-- Drops a line break right behind the opening quotes. -/
def dropFirstBreak (cs : List Char) : List Char :=
  (lineBreak? cs).getD cs

/-- Reads a string from its opening quote. -/
def readText : List Char → Option (List Char × List Char)
  | '"' :: '"' :: '"' :: cs => readLines '"' (cs.length + 1) (dropFirstBreak cs)
  | '\x27' :: '\x27' :: '\x27' :: cs => readLines '\x27' (cs.length + 1) (dropFirstBreak cs)
  | '"' :: cs => readBasic (cs.length + 1) cs
  | '\x27' :: cs => readLiteral cs
  | _ => none

/-! ### Keys -/

/-- Whether a character may stand in a bare key. -/
def isBare (c : Char) : Bool :=
  c.isAlphanum || c == '_' || c == '-'

/-- Reads a bare or quoted key. -/
def readKey : List Char → Option (String × List Char)
  | '"' :: cs => (readBasic (cs.length + 1) cs).map fun (key, cs) => (String.ofList key, cs)
  | '\x27' :: cs => (readLiteral cs).map fun (key, cs) => (String.ofList key, cs)
  | cs =>
    match cs.takeWhile isBare with
    | [] => none
    | key => some (String.ofList key, cs.dropWhile isBare)

/-- Reads a dotted key and the blanks after it.  The fuel bounds the number of parts. -/
def readPath : (fuel : Nat) → List Char → Option (List String × List Char)
  | 0, _ => none
  | fuel + 1, cs =>
    match readKey (skipBlanks cs) with
    | none => none
    | some (key, cs) =>
      match skipBlanks cs with
      | '.' :: cs => (readPath fuel cs).map fun (path, cs) => (key :: path, cs)
      | cs => some ([key], cs)

end DesignTokens.Toml

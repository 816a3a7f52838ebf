/-!
# Blanks, lines, columns, digits and bytes

The blank characters are the twenty-five of the Unicode property White_Space; `Text.trim` takes them
off both ends of a text.  Comparison of names ignores the case of ASCII letters.  Columns are padded
with spaces to a width in characters.  `Text.ofHexDigits?` is the value of a hexadecimal numeral of
either case.

`Text.ofBytes?` decodes UTF-8 and refuses what is ill-formed.  `Text.ofBytesLossy` puts U+FFFD for
each ill-formed part: a byte that begins no character, or the longest run of bytes that begins one
and is then cut short.
-/

namespace DesignTokens.Text

/-! ### Blanks, parts and columns -/

/-- Whether a character has the property White_Space. -/
def isBlank (c : Char) : Bool :=
  let n := c.toNat
  (0x09 ≤ n && n ≤ 0x0d) || n == 0x20 || n == 0x85 || n == 0xa0 || n == 0x1680 ||
    (0x2000 ≤ n && n ≤ 0x200a) || n == 0x2028 || n == 0x2029 || n == 0x202f || n ==
      0x205f || n == 0x3000

/-- A list of characters without the blanks at its end. -/
def trimEnd (cs : List Char) : List Char :=
  (cs.reverse.dropWhile isBlank).reverse

/-- A text without the blanks at its ends. -/
def trim (text : String) : String :=
  String.ofList (trimEnd (text.toList.dropWhile isBlank))

/-- The parts of a text between the occurrences of a character. -/
def parts (separator : Char) (text : String) : List String :=
  (text.toList.splitOn separator).map String.ofList

/-- Whether two texts agree when the ASCII letters of both are taken in lower case. -/
def sameIgnoringCase (a b : String) : Bool :=
  a.toList.map Char.toLower == b.toList.map Char.toLower

/-- A text with its ASCII letters in upper case. -/
def upperAscii (text : String) : String :=
  String.ofList (text.toList.map Char.toUpper)

/-- A text filled with blanks in front to a width counted in characters. -/
def padLeft (width : Nat) (text : String) : String :=
  String.ofList (List.replicate (width - text.length) ' ' ++ text.toList)

/-- A text filled with blanks behind to a width counted in characters. -/
def padRight (width : Nat) (text : String) : String :=
  String.ofList (text.toList ++ List.replicate (width - text.length) ' ')

/-- Lines of text, each with its line break. -/
def unlines (lines : List String) : String :=
  String.join (lines.map (· ++ "\n"))

/-! ### Hexadecimal digits -/

/-- The value of a hexadecimal digit of either case. -/
def hexDigit? (c : Char) : Option Nat :=
  let n := c.toNat
  if '0'.toNat ≤ n ∧ n ≤ '9'.toNat then some (n - '0'.toNat)
  else if 'a'.toNat ≤ n ∧ n ≤ 'f'.toNat then some (n - 'a'.toNat + 10)
  else if 'A'.toNat ≤ n ∧ n ≤ 'F'.toNat then some (n - 'A'.toNat + 10)
  else none

/-- The value of digits in a base, the most significant digit first. -/
def ofDigitValues (base : Nat) (digits : List Nat) : Nat :=
  digits.foldl (fun value digit => base * value + digit) 0

/-- The number that hexadecimal digits write. -/
def ofHexDigits? (cs : List Char) : Option Nat :=
  (cs.mapM hexDigit?).map (ofDigitValues 16)

/-! ### Bytes -/

/-- The text that bytes encode. -/
def ofBytes? (bytes : ByteArray) : Option String :=
  String.fromUTF8? bytes

/-- A lead byte of UTF-8: its bits of the code point, the number of continuation bytes, and the
range of the first of them. -/
structure Lead where
  code : Nat
  followers : Nat
  least : Nat := 0x80
  greatest : Nat := 0xbf

/-- The lead byte of a character.  The range of the byte after it excludes overlong forms,
surrogates and codes above `0x10FFFF`. -/
def lead? (byte : Nat) : Option Lead :=
  if byte < 0x80 then some { code := byte, followers := 0 }
  else if byte < 0xc2 then none
  else if byte < 0xe0 then some { code := byte - 0xc0, followers := 1 }
  else if byte = 0xe0 then some { code := 0, followers := 2, least := 0xa0 }
  else if byte = 0xed then some { code := 0xd, followers := 2, greatest := 0x9f }
  else if byte < 0xf0 then some { code := byte - 0xe0, followers := 2 }
  else if byte = 0xf0 then some { code := 0, followers := 3, least := 0x90 }
  else if byte < 0xf4 then some { code := byte - 0xf0, followers := 3 }
  else if byte = 0xf4 then some { code := 4, followers := 3, greatest := 0x8f }
  else none

/-- Reads the continuation bytes; `none` if they are truncated.  The rest begins at the first byte
that does not belong. -/
def readFollowers : (count least greatest code : Nat) → List UInt8 → Option Nat × List UInt8
  | 0, _, _, code, bytes => (some code, bytes)
  | _ + 1, _, _, _, [] => (none, [])
  | count + 1, least, greatest, code, byte :: bytes =>
    if least ≤ byte.toNat ∧ byte.toNat ≤ greatest then
      readFollowers count 0x80 0xbf (64 * code + (byte.toNat - 0x80)) bytes
    else (none, byte :: bytes)

/-- U+FFFD. -/
def replacement : Char := '\ufffd'

/-- The characters of bytes.  The fuel bounds their number. -/
def lossyChars : (fuel : Nat) → List UInt8 → List Char
  | 0, _ => []
  | _ + 1, [] => []
  | fuel + 1, byte :: bytes =>
    match lead? byte.toNat with
    | none => replacement :: lossyChars fuel bytes
    | some lead =>
      match readFollowers lead.followers lead.least lead.greatest lead.code bytes with
      | (some code, bytes) => Char.ofNat code :: lossyChars fuel bytes
      | (none, bytes) => replacement :: lossyChars fuel bytes

/-- Bytes as text, with a replacement for each ill-formed part. -/
def ofBytesLossy (bytes : ByteArray) : String :=
  String.ofList (lossyChars bytes.size bytes.toList)

end DesignTokens.Text

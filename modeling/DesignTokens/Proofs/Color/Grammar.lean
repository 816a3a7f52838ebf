import DesignTokens.Proofs.Color.Hex
import Mathlib.Tactic.IntervalCases

/-!
# The grammar of hexadecimal colours

A colour is six hexadecimal digits of either case, a pair for each channel, behind at most one `#`
(`WritesColor`, `IsRest`).  The same is read from UTF-8 bytes: six bytes that are all hexadecimal
digits are six characters (`exists_writesColor`), since a byte of a character beyond ASCII is at
least 128.

`readSlices` parses the slices `[0..2]`, `[2..4]` and `[4..6]` of the bytes.  A slice could begin or
end inside a character, or fail to parse; behind the checks of the length and of the bytes neither
happens (`WritesColor.readSlices_eq`), and so `readSlices` ends as `ofHex` does (`ofHex_cases`).

`toHex` is canonical: every string that is read as a colour becomes it when `#` is put in front and
the letters are taken in lower case (`IsRest.ofHex_eq_ok_iff`).
-/

namespace DesignTokens

namespace Text

/-! ### Bytes of UTF-8 -/

/-- A byte that is an ASCII hexadecimal digit. -/
def IsHexByte (byte : UInt8) : Prop :=
  (48 ≤ byte.toNat ∧ byte.toNat ≤ 57) ∨ (65 ≤ byte.toNat ∧ byte.toNat ≤ 70) ∨
    (97 ≤ byte.toNat ∧ byte.toNat ≤ 102)

instance decidableIsHexByte (byte : UInt8) : Decidable (IsHexByte byte) :=
  inferInstanceAs (Decidable (_ ∨ _))

/-- The UTF-8 bytes of a string. -/
def bytes (text : String) : List UInt8 :=
  text.toUTF8.data.toList

theorem bytes_ofList (cs : List Char) :
    bytes (String.ofList cs) = cs.flatMap String.utf8EncodeChar := by
  simp [bytes, String.toUTF8, List.utf8Encode]

/-- A character is a hexadecimal digit exactly if all its bytes are. -/
theorem forall_isHexByte_iff (c : Char) :
    (∀ byte ∈ String.utf8EncodeChar c, IsHexByte byte) ↔ ∃ n, hexDigit? c = some n := by
  have hcode : (∃ n, hexDigit? c = some n) ↔
      (48 ≤ c.toNat ∧ c.toNat ≤ 57) ∨ (65 ≤ c.toNat ∧ c.toNat ≤ 70) ∨
        (97 ≤ c.toNat ∧ c.toNat ≤ 102) := by
    simp only [hexDigit?_eq_some_iff]
    constructor
    · rintro ⟨n, hn⟩
      omega
    · rintro (h | h | h)
      · exact ⟨_, Or.inl ⟨h.1, h.2, rfl⟩⟩
      · exact ⟨_, Or.inr (Or.inr ⟨h.1, h.2, rfl⟩)⟩
      · exact ⟨_, Or.inr (Or.inl ⟨h.1, h.2, rfl⟩)⟩
  rw [hcode]
  have hval : c.val.toNat = c.toNat := rfl
  unfold String.utf8EncodeChar
  simp only [hval]
  split_ifs with h₁ h₂ h₃
  · rw [List.forall_mem_singleton, IsHexByte, UInt8.toNat_ofNat', Nat.mod_eq_of_lt (by omega)]
  -- every byte of a longer character is at least 128
  all_goals
    simp only [List.forall_mem_cons, IsHexByte, UInt8.toNat_ofNat']
    omega

/-- All bytes of a string are hexadecimal digits exactly if all its characters are. -/
theorem forall_mem_bytes_iff (cs : List Char) :
    (∀ byte ∈ bytes (String.ofList cs), IsHexByte byte) ↔ ∃ ns, cs.mapM hexDigit? = some ns := by
  rw [bytes_ofList]
  induction cs with
  | nil => exact ⟨fun _ => ⟨[], rfl⟩, fun _ => nofun⟩
  | cons c cs ih =>
    rw [List.flatMap_cons, List.forall_mem_append, forall_isHexByte_iff, ih]
    simp only [List.mapM_cons, Option.bind_eq_bind, Option.bind_eq_some_iff, Option.pure_def,
      Option.some.injEq]
    constructor
    · rintro ⟨⟨n, hn⟩, ns, hns⟩
      exact ⟨n :: ns, n, hn, ns, hns, rfl⟩
    · rintro ⟨_, n, hn, ns, hns, -⟩
      exact ⟨⟨n, hn⟩, ns, hns⟩

/-! ### Slices -/

/-- The slice of a string between two byte offsets, unless one of them is inside a character. -/
def slice? (text : String) (low high : ℕ) : Option String :=
  if h : String.Pos.Raw.IsValid text ⟨low⟩ ∧ String.Pos.Raw.IsValid text ⟨high⟩ then
    some (String.extract ⟨⟨low⟩, h.1⟩ ⟨⟨high⟩, h.2⟩)
  else none

/-- The offsets of a substring are at character boundaries. -/
theorem slice?_append (before part after : String) :
    slice? (before ++ (part ++ after)) before.utf8ByteSize
      (before.utf8ByteSize + part.utf8ByteSize) = some part := by
  have hlow : String.Pos.Raw.IsValid (before ++ (part ++ after)) ⟨before.utf8ByteSize⟩ :=
    String.Pos.Raw.isValid_iff_exists_append.mpr ⟨before, part ++ after, rfl, rfl⟩
  have hhigh :
      String.Pos.Raw.IsValid (before ++ (part ++ after))
        ⟨before.utf8ByteSize + part.utf8ByteSize⟩ := by
    refine String.Pos.Raw.isValid_iff_exists_append.mpr
      ⟨before ++ part, after, (String.append_assoc ..).symm, ?_⟩
    exact String.Pos.Raw.ext (String.utf8ByteSize_append ..).symm
  rw [slice?, dif_pos ⟨hlow, hhigh⟩, Option.some_inj, ← String.toByteArray_inj,
    String.toByteArray_extract, String.toByteArray_append, String.toByteArray_append]
  show (before.toByteArray ++ (part.toByteArray ++ after.toByteArray)).extract
    (before.utf8ByteSize + 0)
    (before.utf8ByteSize + part.utf8ByteSize) = part.toByteArray
  rw [ByteArray.extract_append_size_add' (String.size_toByteArray ..).symm,
    ByteArray.extract_append_eq_left (String.size_toByteArray ..).symm]

/-! ### Numerals -/

/-- Drops an optional sign. -/
def dropSign : List Char → List Char
  | '+' :: cs => cs
  | cs => cs

/-- Parses a byte in base 16: an optional sign and at least one digit. -/
def byteOfNumeral? (cs : List Char) : Option UInt8 :=
  if (dropSign cs).isEmpty then none
  else ((ofHexDigits? (dropSign cs)).filter (· < 256)).map UInt8.ofNat

/-- `c` is the `n`-th of `0123456789abcdef` or of `0123456789ABCDEF`. -/
def IsDigit (c : Char) (n : ℕ) : Prop :=
  "0123456789abcdef".toList[n]? = some c ∨ "0123456789ABCDEF".toList[n]? = some c

/-- `IsDigit` is the graph of `hexDigit?`. -/
theorem isDigit_iff {c : Char} {n : ℕ} : IsDigit c n ↔ hexDigit? c = some n := by
  constructor
  · intro h
    have hlt : n < 16 := by
      rcases h with h | h <;> exact (List.getElem?_eq_some_iff.mp h).1
    unfold IsDigit at h
    interval_cases n <;> simp at h <;> rcases h with rfl | rfl <;> rfl
  · intro h
    rw [hexDigit?_eq_some_iff] at h
    have hcode : c = Char.ofNat c.toNat := (Char.ofNat_toNat c).symm
    generalize c.toNat = m at h hcode
    unfold IsDigit
    rcases h with ⟨hlow, hhigh, rfl⟩ | ⟨hlow, hhigh, rfl⟩ | ⟨hlow, hhigh, rfl⟩ <;>
      rw [hcode] <;> interval_cases m <;> decide

end Text

namespace Rgb

open Text

/-! ### The grammar -/

/-- Two digits write a byte. -/
def WritesByte (high low : Char) (byte : UInt8) : Prop :=
  ∃ m n, IsDigit high m ∧ IsDigit low n ∧ byte.toNat = 16 * m + n

/-- Six digits write a colour, a pair of them each channel. -/
def WritesColor (rest : String) (color : Rgb) : Prop :=
  ∃ r r' g g' b b', rest.toList = [r, r', g, g', b, b'] ∧
    WritesByte r r' color.r ∧ WritesByte g g' color.g ∧ WritesByte b b' color.b

/-- `rest` is `text` without one leading `#`, if it has one. -/
def IsRest (text rest : String) : Prop :=
  text = "#" ++ rest ∨ text = rest ∧ text.toList.head? ≠ some '#'

/-! ### Reading slices -/

/-- Where `readSlices` may stop: there are not six bytes, one is not a digit, a slice is not at
character boundaries, or it does not parse. -/
inductive Stop where
  | length
  | digit
  | split
  | numeral
deriving DecidableEq

/-- The byte of a slice. -/
def readSlice (rest : String) (low high : ℕ) : Except Stop UInt8 :=
  match slice? rest low high with
  | none => .error .split
  | some part =>
    match byteOfNumeral? part.toList with
    | none => .error .numeral
    | some byte => .ok byte

/-- Reads a colour from three slices, once the length and the bytes have been looked at. -/
def readSlices (rest : String) : Except Stop Rgb :=
  if rest.utf8ByteSize ≠ 6 then .error .length
  else if (bytes rest).any fun byte => !decide (IsHexByte byte) then .error .digit
  else do
    let r ← readSlice rest 0 2
    let g ← readSlice rest 2 4
    let b ← readSlice rest 4 6
    return ⟨r, g, b⟩

section Reading

variable {rest : String} {color : Rgb}

theorem isRest_dropMark (text : String) : IsRest text (String.ofList (dropMark text.toList)) := by
  unfold dropMark
  split
  case h_1 cs h =>
    left
    rw [← String.ofList_toList (s := text), h, String.ofList_cons]
    rfl
  case h_2 hne =>
    right
    rw [String.ofList_toList]
    refine ⟨rfl, ?_⟩
    intro hhead
    obtain ⟨cs, hcs⟩ := List.head?_eq_some_iff.mp hhead
    exact hne cs hcs

theorem writesByte_iff {high low : Char} {byte : UInt8} :
    WritesByte high low byte ↔
      ∃ m n, hexDigit? high = some m ∧ hexDigit? low = some n ∧ byte = ofDigits m n := by
  simp only [WritesByte, isDigit_iff]
  refine exists_congr fun m => exists_congr fun n => and_congr_right fun hm =>
    and_congr_right fun hn => ?_
  have hm16 := (toLower_of_hexDigit? hm).1
  have hn16 := (toLower_of_hexDigit? hn).1
  rw [← UInt8.toNat_inj, ofDigits, UInt8.toNat_ofNat', Nat.mod_eq_of_lt (by omega)]

/-- Six bytes that are digits are six characters, and write a colour. -/
theorem exists_writesColor (hsize : rest.utf8ByteSize = 6)
    (hbytes : ∀ byte ∈ bytes rest, IsHexByte byte) : ∃ color, WritesColor rest color := by
  obtain ⟨cs, rfl⟩ := rest.exists_eq_ofList
  obtain ⟨ns, hns⟩ := (forall_mem_bytes_iff cs).mp hbytes
  rw [utf8ByteSize_ofList (map_toLower_of_mapM hns).2.2] at hsize
  -- a digit is one byte, so that there are six characters as well
  obtain ⟨r, r', g, hfirst⟩ := List.length_eq_three.mp (show (cs.take 3).length = 3 by simp [hsize])
  obtain ⟨g', b, b', hsecond⟩ :=
    List.length_eq_three.mp (show (cs.drop 3).length = 3 by simp [hsize])
  have hcs : cs = [r, r', g, g', b, b'] := by
    rw [← List.take_append_drop 3 cs, hfirst, hsecond]
    rfl
  have hdigit : ∀ c ∈ cs, ∃ n, hexDigit? c = some n := by
    intro c hc
    rw [← forall_isHexByte_iff]
    intro byte hbyte
    exact hbytes byte (by rw [bytes_ofList]; exact List.mem_flatMap.mpr ⟨c, hc, hbyte⟩)
  have hpair : ∀ c ∈ cs, ∀ d ∈ cs, ∃ byte, WritesByte c d byte := by
    intro c hc d hd
    obtain ⟨m, hm⟩ := hdigit c hc
    obtain ⟨n, hn⟩ := hdigit d hd
    exact ⟨_, writesByte_iff.mpr ⟨m, n, hm, hn, rfl⟩⟩
  obtain ⟨red, hred⟩ := hpair r (by simp [hcs]) r' (by simp [hcs])
  obtain ⟨green, hgreen⟩ := hpair g (by simp [hcs]) g' (by simp [hcs])
  obtain ⟨blue, hblue⟩ := hpair b (by simp [hcs]) b' (by simp [hcs])
  refine ⟨⟨red, green, blue⟩, r, r', g, g', b, b', ?_, hred, hgreen, hblue⟩
  rw [String.toList_ofList, hcs]

theorem WritesColor.mapM_hexDigit? (h : WritesColor rest color) :
    ∃ m m' n n' k k', rest.toList.mapM hexDigit? = some [m, m', n, n', k, k'] ∧
      color = ⟨ofDigits m m', ofDigits n n', ofDigits k k'⟩ := by
  obtain ⟨r, r', g, g', b, b', hrest, hr, hg, hb⟩ := h
  obtain ⟨m, m', hm, hm', hred⟩ := writesByte_iff.mp hr
  obtain ⟨n, n', hn, hn', hgreen⟩ := writesByte_iff.mp hg
  obtain ⟨k, k', hk, hk', hblue⟩ := writesByte_iff.mp hb
  refine ⟨m, m', n, n', k, k', ?_, ?_⟩
  · simp [hrest, hm, hm', hn, hn', hk, hk']
  · rw [← hred, ← hgreen, ← hblue]

theorem WritesColor.utf8Size_eq_one (h : WritesColor rest color) :
    ∀ c ∈ rest.toList, c.utf8Size = 1 := by
  obtain ⟨m, m', n, n', k, k', hdigits, -⟩ := h.mapM_hexDigit?
  exact (map_toLower_of_mapM hdigits).2.2

theorem WritesColor.utf8ByteSize_eq_six (h : WritesColor rest color) : rest.utf8ByteSize = 6 := by
  have hlength := utf8ByteSize_ofList h.utf8Size_eq_one
  obtain ⟨r, r', g, g', b, b', hrest, -⟩ := h
  rw [String.ofList_toList, hrest] at hlength
  exact hlength

theorem WritesColor.isHexByte (h : WritesColor rest color) :
    ∀ byte ∈ bytes rest, IsHexByte byte := by
  obtain ⟨m, m', n, n', k, k', hdigits, -⟩ := h.mapM_hexDigit?
  rw [← String.ofList_toList (s := rest), forall_mem_bytes_iff]
  exact ⟨_, hdigits⟩

/-- Two digits parse as a byte, without sign and without overflow. -/
theorem byteOfNumeral?_pair {high low : Char} {byte : UInt8} (h : WritesByte high low byte) :
    byteOfNumeral? [high, low] = some byte := by
  obtain ⟨m, n, hm, hn, rfl⟩ := writesByte_iff.mp h
  have hm16 := (toLower_of_hexDigit? hm).1
  have hn16 := (toLower_of_hexDigit? hn).1
  have hsign : dropSign [high, low] = [high, low] := by
    unfold dropSign
    split
    case h_1 hplus =>
      rw [List.cons_eq_cons] at hplus
      rw [hplus.1] at hm
      cases hm
    case h_2 => rfl
  have hvalue : ofHexDigits? [high, low] = some (16 * m + n) := by
    simp [ofHexDigits?, hm, hn, ofDigitValues]
  have hbyte : decide (16 * m + n < 256) = true := decide_eq_true (by omega)
  unfold byteOfNumeral?
  rw [hsign, if_neg (by simp), hvalue, Option.filter_some, if_pos hbyte]
  rfl

/-- The slice of two digits behind characters of one byte each. -/
theorem readSlice_eq {high low : Char} {byte : UInt8} (h : WritesByte high low byte)
    (before after : List Char) (hrest : rest.toList = before ++ high :: low :: after)
    (hsizes : ∀ c ∈ rest.toList, c.utf8Size = 1) :
    readSlice rest before.length (before.length + 2) = .ok byte := by
  rw [hrest] at hsizes
  have hbefore : (String.ofList before).utf8ByteSize = before.length :=
    utf8ByteSize_ofList fun c hc => hsizes c (List.mem_append_left _ hc)
  have hpair : (String.ofList [high, low]).utf8ByteSize = 2 :=
    utf8ByteSize_ofList (by simp [hsizes])
  have happend :
      rest = String.ofList before ++ (String.ofList [high, low] ++ String.ofList after) := by
    rw [← String.ofList_append, ← String.ofList_append, ← String.ofList_toList (s := rest), hrest]
    rfl
  have hslice := slice?_append (String.ofList before) (String.ofList [high, low])
    (String.ofList after)
  rw [← happend, hbefore, hpair] at hslice
  simp only [readSlice, hslice, String.toList_ofList, byteOfNumeral?_pair h]

theorem WritesColor.readSlices_eq (h : WritesColor rest color) : readSlices rest = .ok color := by
  have hsize := h.utf8ByteSize_eq_six
  have hbytes := h.isHexByte
  have hsizes := h.utf8Size_eq_one
  obtain ⟨r, r', g, g', b, b', hrest, hr, hg, hb⟩ := h
  have hred : readSlice rest 0 2 = .ok color.r := readSlice_eq hr [] [g, g', b, b'] hrest hsizes
  have hgreen : readSlice rest 2 4 = .ok color.g := readSlice_eq hg [r, r'] [b, b'] hrest hsizes
  have hblue : readSlice rest 4 6 = .ok color.b := readSlice_eq hb [r, r', g, g'] [] hrest hsizes
  rw [readSlices, if_neg (not_not.mpr hsize), if_neg (by simpa using hbytes), hred, hgreen, hblue]
  rfl

theorem ofHex_of_writesColor {text : String}
    (h : WritesColor (String.ofList (dropMark text.toList)) color) : ofHex text = .ok color := by
  have hsize := h.utf8ByteSize_eq_six
  obtain ⟨m, m', n, n', k, k', hdigits, rfl⟩ := h.mapM_hexDigit?
  rw [String.toList_ofList] at hdigits
  simp only [ofHex, hsize, hdigits, ne_eq, not_true_eq_false, if_false]

/-- The three ways in which `ofHex` and `readSlices` end. -/
theorem ofHex_cases (text : String) :
    let rest := String.ofList (dropMark text.toList)
    (rest.utf8ByteSize ≠ 6 ∧ ofHex text = .error (.colorLength text) ∧
      readSlices rest = .error .length) ∨
    ((rest.utf8ByteSize = 6 ∧ ∃ byte ∈ bytes rest, ¬IsHexByte byte) ∧
      ofHex text = .error (.colorDigit text) ∧ readSlices rest = .error .digit) ∨
    ∃ color, WritesColor rest color ∧ ofHex text = .ok color ∧ readSlices rest = .ok color := by
  intro rest
  by_cases hsize : rest.utf8ByteSize = 6
  · right
    by_cases hbytes : ∀ byte ∈ bytes rest, IsHexByte byte
    · right
      obtain ⟨color, hcolor⟩ := exists_writesColor hsize hbytes
      exact ⟨color, hcolor, ofHex_of_writesColor hcolor, hcolor.readSlices_eq⟩
    · left
      -- a byte that is not a digit belongs to a character that is not a digit
      have hdigits : (dropMark text.toList).mapM hexDigit? = none := by
        rw [Option.eq_none_iff_forall_ne_some]
        intro ns hns
        exact hbytes ((forall_mem_bytes_iff _).mpr ⟨ns, hns⟩)
      refine ⟨⟨hsize, by simpa using hbytes⟩, ?_, ?_⟩
      · unfold ofHex
        dsimp only
        rw [if_neg (not_not.mpr hsize), hdigits]
      · rw [readSlices, if_neg (not_not.mpr hsize), if_pos (by simpa using hbytes)]
  · left
    exact ⟨hsize, if_pos hsize, if_pos hsize⟩

/-- `ofHex` accepts a string exactly if it is six hexadecimal digits of either case behind at most
one `#`, and then a pair of digits is each channel.  It is refused with `colorLength` exactly if the
rest has not six bytes, and with `colorDigit` exactly if it has six bytes of which one is not a
digit.  `readSlices` gives the same result, so no slice begins or ends inside a character or fails
to parse. -/
theorem ofHex_follows_grammar (text : String) : ∃ rest, IsRest text rest ∧
    (∀ color, ofHex text = .ok color ↔ WritesColor rest color) ∧
    (ofHex text = .error (.colorLength text) ↔ rest.utf8ByteSize ≠ 6) ∧
    (ofHex text = .error (.colorDigit text) ↔
      rest.utf8ByteSize = 6 ∧ ∃ byte ∈ bytes rest, ¬IsHexByte byte) ∧
    ((∃ color, ofHex text = .ok color ∧ readSlices rest = .ok color) ∨
      (ofHex text = .error (.colorLength text) ∧ readSlices rest = .error .length) ∨
      (ofHex text = .error (.colorDigit text) ∧ readSlices rest = .error .digit)) := by
  have haccept :
      ∀ color, WritesColor (String.ofList (dropMark text.toList)) color → ofHex text = .ok color :=
    fun color => ofHex_of_writesColor
  refine ⟨_, isRest_dropMark text, ?_⟩
  rcases ofHex_cases text with ⟨hsize, hread, hslices⟩ | ⟨⟨hsize, hbyte⟩, hread, hslices⟩ |
    ⟨color, hcolor, hread, hslices⟩
  · rw [hread] at haccept ⊢
    refine ⟨fun color => ⟨nofun, haccept color⟩, ?_, ?_, Or.inr (Or.inl ⟨rfl, hslices⟩)⟩
    · exact iff_of_true rfl hsize
    · exact iff_of_false nofun fun h => hsize h.1
  · rw [hread] at haccept ⊢
    refine ⟨fun color => ⟨nofun, haccept color⟩, ?_, ?_, Or.inr (Or.inr ⟨rfl, hslices⟩)⟩
    · exact iff_of_false nofun fun h => h hsize
    · exact iff_of_true rfl ⟨hsize, hbyte⟩
  · rw [hread] at haccept ⊢
    refine ⟨fun other => ⟨?_, haccept other⟩, ?_, ?_, Or.inl ⟨color, rfl, hslices⟩⟩
    · intro h
      rwa [← Except.ok.inj h]
    · exact iff_of_false nofun fun h => h hcolor.utf8ByteSize_eq_six
    · refine iff_of_false nofun ?_
      rintro ⟨-, byte, hmem, hbyte⟩
      exact hbyte (hcolor.isHexByte byte hmem)

/-- `+f` parses as a byte, but `+` is not a digit. -/
example :
    byteOfNumeral? ['+', 'f'] = some 15 ∧ ofHex "+f+f+f" = .error (.colorDigit "+f+f+f") := by
  decide

/-! ### The canonical string of a colour -/

theorem IsRest.toList_eq {text rest : String} (h : IsRest text rest) :
    rest.toList = dropMark text.toList := by
  rcases h with rfl | ⟨rfl, hhead⟩
  · rw [String.toList_append]
    rfl
  · unfold dropMark
    split
    case h_1 cs hmark =>
      rw [hmark] at hhead
      exact absurd rfl hhead
    case h_2 => rfl

/-- `ofHex text = .ok color` exactly if `color.toHex` is `text` with a `#` and in lower case. -/
theorem IsRest.ofHex_eq_ok_iff {text rest : String} (h : IsRest text rest) {color : Rgb} :
    ofHex text = .ok color ↔ color.toHex = "#" ++ rest.toLower := by
  have hlower : rest.toLower.toList = rest.toList.map Char.toLower := String.toList_map
  have htext : ("#" ++ rest.toLower).toList = '#' :: (dropMark text.toList).map Char.toLower := by
    rw [String.toList_append, hlower, h.toList_eq]
    rfl
  rw [Rgb.ofHex_eq_ok_iff, ← String.toList_inj, toList_toHex, htext, List.cons_inj_right, eq_comm]

theorem toHex_injective : Function.Injective toHex := by
  intro color color' h
  have hread := ofHex_toHex color
  rw [h, ofHex_toHex] at hread
  exact (Except.ok.inj hread).symm

/-- `ofHex` is a left inverse of `toHex`, and every string that `ofHex` accepts is `toHex` of its
colour up to a leading `#` and the case of its letters.  So two strings name the same colour exactly
if they differ in no more than that, and `toHex` is injective. -/
theorem toHex_is_canonical :
    (∀ color, ofHex color.toHex = .ok color) ∧
    (∀ text rest color, IsRest text rest →
      (ofHex text = .ok color ↔ color.toHex = "#" ++ rest.toLower)) ∧
    (∀ text rest color text' rest' color', IsRest text rest → IsRest text' rest' →
      ofHex text = .ok color → ofHex text' = .ok color' →
        (color = color' ↔ rest.toLower = rest'.toLower)) ∧
    Function.Injective toHex := by
  refine ⟨ofHex_toHex, fun text rest color hrest => hrest.ofHex_eq_ok_iff, ?_, toHex_injective⟩
  intro text rest color text' rest' color' hrest hrest' hread hread'
  rw [hrest.ofHex_eq_ok_iff] at hread
  rw [hrest'.ofHex_eq_ok_iff] at hread'
  rw [← toHex_injective.eq_iff, hread, hread', String.append_right_inj]

/-- `#` and mixed case name the same colour as the digits alone. -/
theorem toHex_is_canonical_mixed :
    (IsRest "#AbCd0F" "AbCd0F" ∧ IsRest "aBcD0f" "aBcD0f") ∧
    (ofHex "#AbCd0F" = .ok ⟨171, 205, 15⟩ ∧ ofHex "aBcD0f" = .ok ⟨171, 205, 15⟩) ∧
    toHex ⟨171, 205, 15⟩ = "#" ++ "AbCd0F".toLower ∧ "AbCd0F".toLower = "aBcD0f".toLower := by
  obtain ⟨-, htext, hsame, -⟩ := toHex_is_canonical
  have hmarked : IsRest "#AbCd0F" "AbCd0F" := .inl rfl
  have hbare : IsRest "aBcD0f" "aBcD0f" := .inr ⟨rfl, by decide⟩
  have hread : ofHex "#AbCd0F" = .ok ⟨171, 205, 15⟩ := by decide
  have hread' : ofHex "aBcD0f" = .ok ⟨171, 205, 15⟩ := by decide
  exact ⟨⟨hmarked, hbare⟩, ⟨hread, hread'⟩, (htext _ _ _ hmarked).mp hread,
    (hsame _ _ _ _ _ _ hmarked hbare hread hread').mp rfl⟩

end Reading

end Rgb

end DesignTokens

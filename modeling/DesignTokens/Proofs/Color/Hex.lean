import DesignTokens.Color.Rgb
import DesignTokens.Text.Basic
import Mathlib.Data.List.Basic
import Mathlib.Data.List.TakeWhile
import Mathlib.Tactic.SplitIfs

/-!
# Colours as hexadecimal text

`ofHex` accepts a string as a colour exactly if it is the six digits of that colour, in either case,
behind at most one `#` (`ofHex_eq_ok_iff`): digits take one byte each, so that the check of the
length counts them.  So `ofHex` is a left inverse of `toHex` (`ofHex_toHex`), and trimming does not
change `toHex` (`trim_toHex`).
-/

namespace DesignTokens

namespace Text

/-! ### Digits -/

section Digits

variable {c : Char} {n : ℕ}

/-- The hexadecimal digits and their values. -/
theorem hexDigit?_eq_some_iff :
    hexDigit? c = some n ↔
      (48 ≤ c.toNat ∧ c.toNat ≤ 57 ∧ n = c.toNat - 48) ∨
      (97 ≤ c.toNat ∧ c.toNat ≤ 102 ∧ n = c.toNat - 87) ∨
        (65 ≤ c.toNat ∧ c.toNat ≤ 70 ∧ n = c.toNat - 55) := by
  have hzero : '0'.toNat = 48 := rfl
  have hnine : '9'.toNat = 57 := rfl
  have ha : 'a'.toNat = 97 := rfl
  have hf : 'f'.toNat = 102 := rfl
  have hA : 'A'.toNat = 65 := rfl
  have hF : 'F'.toNat = 70 := rfl
  unfold hexDigit?
  dsimp only
  split_ifs <;> simp only [Option.some.injEq, false_iff] <;> omega

/-- A hexadecimal digit is an ASCII character that is not blank. -/
theorem toNat_of_hexDigit? (h : hexDigit? c = some n) : 48 ≤ c.toNat ∧ c.toNat ≤ 102 := by
  rw [hexDigit?_eq_some_iff] at h
  omega

theorem utf8Size_of_hexDigit? (h : hexDigit? c = some n) : c.utf8Size = 1 := by
  have hc := (toNat_of_hexDigit? h).2
  rw [Char.utf8Size_eq_one_iff, UInt32.le_iff_toNat_le]
  exact Nat.le_trans hc (by decide)

theorem isBlank_of_hexDigit? (h : hexDigit? c = some n) : isBlank c = false := by
  obtain ⟨hlow, hhigh⟩ := toNat_of_hexDigit? h
  simp only [isBlank, Bool.or_eq_false_iff, Bool.and_eq_false_iff, decide_eq_false_iff_not,
    beq_eq_false_iff_ne]
  omega

theorem hexDigit?_digitChar (hn : n < 16) : hexDigit? (Nat.digitChar n) = some n := by
  revert n
  decide

/-- The code of a letter of ASCII in lower case. -/
theorem toNat_toLower (c : Char) :
    c.toLower.toNat = if 65 ≤ c.toNat ∧ c.toNat ≤ 90 then c.toNat + 32 else c.toNat := by
  have hupper : (c.val ≥ 'A'.val ∧ c.val ≤ 'Z'.val) ↔ 65 ≤ c.toNat ∧ c.toNat ≤ 90 := by
    rw [ge_iff_le, UInt32.le_iff_toNat_le, UInt32.le_iff_toNat_le]
    rfl
  unfold Char.toLower
  split_ifs with hval hnat hnat
  · show (c.val + 32).toNat = c.val.toNat + 32
    have hle : c.val.toNat ≤ 90 := hnat.2
    rw [UInt32.toNat_add]
    exact Nat.mod_eq_of_lt (show c.val.toNat + 32 < 2 ^ 32 by omega)
  · exact absurd (hupper.mp hval) hnat
  · exact absurd (hupper.mpr hnat) hval
  · rfl

/-- The case of a digit does not matter. -/
theorem hexDigit?_toLower (c : Char) : hexDigit? c.toLower = hexDigit? c := by
  ext n
  rw [hexDigit?_eq_some_iff, hexDigit?_eq_some_iff, toNat_toLower]
  split_ifs <;> omega

theorem toNat_digitChar (hn : n < 16) :
    (Nat.digitChar n).toNat = if n < 10 then n + 48 else n + 87 := by
  revert n
  decide

/-- In lower case a digit is the one that is written for its value. -/
theorem toLower_of_hexDigit? (h : hexDigit? c = some n) : n < 16 ∧ c.toLower = Nat.digitChar n := by
  rw [hexDigit?_eq_some_iff] at h
  have hlt : n < 16 := by omega
  refine ⟨hlt, Char.toNat_inj.mp ?_⟩
  rw [toNat_toLower, toNat_digitChar hlt]
  split_ifs <;> omega

/-- Digits that are read one by one are, in lower case, those that are written for their values. -/
theorem map_toLower_of_mapM {cs : List Char} {ns : List ℕ} (h : cs.mapM hexDigit? = some ns) :
    cs.map Char.toLower = ns.map Nat.digitChar ∧ (∀ n ∈ ns, n < 16) ∧ ∀ c ∈ cs, c.utf8Size = 1 := by
  induction cs generalizing ns with
  | nil =>
    obtain rfl : [] = ns := Option.some.inj h
    exact ⟨rfl, nofun, nofun⟩
  | cons c cs ih =>
    simp only [List.mapM_cons, Option.bind_eq_bind, Option.bind_eq_some_iff, Option.pure_def,
      Option.some.injEq] at h
    obtain ⟨n, hn, ns, hns, rfl⟩ := h
    obtain ⟨hlt, hc⟩ := toLower_of_hexDigit? hn
    obtain ⟨hcs, hlts, hsizes⟩ := ih hns
    rw [List.forall_mem_cons, List.forall_mem_cons, List.map_cons, List.map_cons, hc, hcs]
    exact ⟨rfl, ⟨hlt, hlts⟩, utf8Size_of_hexDigit? hn, hsizes⟩

/-- Four digits, of which the first two are zeros, name a byte. -/
theorem ofHexDigits?_byte (hn : n < 256) :
    ofHexDigits? ['0', '0', Nat.digitChar (n / 16), Nat.digitChar (n % 16)] = some n := by
  have hzero : hexDigit? '0' = some 0 := by decide
  have hhigh := hexDigit?_digitChar (show n / 16 < 16 by omega)
  have hlow := hexDigit?_digitChar (show n % 16 < 16 by omega)
  have hvalue : ofDigitValues 16 [0, 0, n / 16, n % 16] = n := by
    simp only [ofDigitValues, List.foldl_cons, List.foldl_nil]
    omega
  simp [ofHexDigits?, hzero, hhigh, hlow, hvalue]

end Digits

/-- A string of ASCII characters has one byte for each. -/
theorem utf8ByteSize_ofList {cs : List Char} (h : ∀ c ∈ cs, c.utf8Size = 1) :
    (String.ofList cs).utf8ByteSize = cs.length := by
  induction cs with
  | nil => rfl
  | cons c cs ih =>
    rw [List.forall_mem_cons] at h
    rw [String.ofList_cons, String.utf8ByteSize_append, String.utf8ByteSize_singleton, h.1, ih h.2,
      List.length_cons, Nat.add_comm]

/-- Trimming does not change a string without blanks. -/
theorem trim_eq_self {text : String} (h : ∀ c ∈ text.toList, isBlank c = false) :
    trim text = text := by
  have hdrop : ∀ cs : List Char, (∀ c ∈ cs, isBlank c = false) → cs.dropWhile isBlank = cs := by
    intro cs hcs
    cases cs with
    | nil => rfl
    | cons c cs => exact List.dropWhile_cons_of_neg (by simp [hcs c List.mem_cons_self])
  unfold trim trimEnd
  rw [hdrop _ h, hdrop, List.reverse_reverse, String.ofList_toList]
  intro c hc
  exact h c (List.mem_reverse.mp hc)

theorem trimEnd_append (cs : List Char) {after : List Char} (h : ∀ c ∈ after, isBlank c = true) :
    trimEnd (cs ++ after) = trimEnd cs := by
  unfold trimEnd
  rw [List.reverse_append, List.dropWhile_append_of_pos]
  intro c hc
  exact h c (List.mem_reverse.mp hc)

/-- Blanks around a string do not change how it is trimmed. -/
theorem trim_append {before after : String} (text : String)
    (hbefore : ∀ c ∈ before.toList, isBlank c = true)
    (hafter : ∀ c ∈ after.toList, isBlank c = true) :
    trim (before ++ text ++ after) = trim text := by
  unfold trim
  rw [String.toList_append, String.toList_append, List.append_assoc,
    List.dropWhile_append_of_pos hbefore, List.dropWhile_append]
  split_ifs with hblank
  · -- the string itself is blank
    rw [List.isEmpty_iff.mp hblank, List.dropWhile_eq_nil_iff.mpr hafter]
  · rw [trimEnd_append _ hafter]

end Text

namespace Rgb

/-! ### Digits of a colour -/

/-- The values of the digits of a byte are its two nibbles. -/
theorem hexDigit?_byteDigits (byte : UInt8) :
    Text.hexDigit? (Nat.digitChar (byte.toNat / 16)) = some (byte.toNat / 16) ∧
      Text.hexDigit? (Nat.digitChar (byte.toNat % 16)) = some (byte.toNat % 16) := by
  have hbyte : byte.toNat < 256 := byte.toNat_lt
  exact ⟨Text.hexDigit?_digitChar (by omega), Text.hexDigit?_digitChar (by omega)⟩

theorem ofDigits_div_mod (byte : UInt8) : ofDigits (byte.toNat / 16) (byte.toNat % 16) = byte := by
  rw [ofDigits, Nat.div_add_mod, UInt8.ofNat_toNat]

theorem byteDigits_ofDigits {m n : ℕ} (hm : m < 16) (hn : n < 16) :
    byteDigits (ofDigits m n) = [Nat.digitChar m, Nat.digitChar n] := by
  have hbyte : (ofDigits m n).toNat = 16 * m + n := by
    rw [ofDigits, UInt8.toNat_ofNat']
    omega
  rw [byteDigits, hbyte, show (16 * m + n) / 16 = m by omega, show (16 * m + n) % 16 = n by omega]

/-- The six digits of a colour, in lower case. -/
def digits (color : Rgb) : List Char :=
  byteDigits color.r ++ byteDigits color.g ++ byteDigits color.b

theorem toList_toHex (color : Rgb) : color.toHex.toList = '#' :: color.digits :=
  String.toList_ofList

theorem mapM_hexDigit?_digits (color : Rgb) :
    color.digits.mapM Text.hexDigit? =
      some [color.r.toNat / 16, color.r.toNat % 16, color.g.toNat / 16, color.g.toNat % 16,
        color.b.toNat / 16,
        color.b.toNat % 16] := by
  obtain ⟨hr, hr'⟩ := hexDigit?_byteDigits color.r
  obtain ⟨hg, hg'⟩ := hexDigit?_byteDigits color.g
  obtain ⟨hb, hb'⟩ := hexDigit?_byteDigits color.b
  simp [digits, byteDigits, hr, hr', hg, hg', hb, hb']

theorem exists_hexDigit?_of_mem_digits {color : Rgb} {c : Char} (hc : c ∈ color.digits) :
    ∃ n, Text.hexDigit? c = some n := by
  have hbyte : ∀ byte : UInt8, c ∈ byteDigits byte → ∃ n, Text.hexDigit? c = some n := by
    intro byte hmem
    obtain ⟨hhigh, hlow⟩ := hexDigit?_byteDigits byte
    rw [byteDigits, List.mem_pair] at hmem
    rcases hmem with rfl | rfl
    · exact ⟨_, hhigh⟩
    · exact ⟨_, hlow⟩
  rw [digits, List.mem_append, List.mem_append] at hc
  rcases hc with (hr | hg) | hb
  · exact hbyte color.r hr
  · exact hbyte color.g hg
  · exact hbyte color.b hb

theorem map_toLower_digits (color : Rgb) : color.digits.map Char.toLower = color.digits := by
  rw [(Text.map_toLower_of_mapM color.mapM_hexDigit?_digits).1]
  rfl

/-! ### Reading -/

/-- `ofHex text = .ok color` exactly if `text` is the digits of `color`, in either case, behind at
most one `#`. -/
theorem ofHex_eq_ok_iff {text : String} {color : Rgb} :
    ofHex text = .ok color ↔ (dropMark text.toList).map Char.toLower = color.digits := by
  constructor
  · intro h
    unfold ofHex at h
    dsimp only at h
    split_ifs at h
    split at h
    case h_1 r r' g g' b b' hdigits =>
      cases h
      -- in lower case there is one digit for each value, the one that is written
      obtain ⟨hlower, hlt, -⟩ := Text.map_toLower_of_mapM hdigits
      simp only [List.forall_mem_cons] at hlt
      obtain ⟨hr, hr', hg, hg', hb, hb', -⟩ := hlt
      rw [hlower, digits, byteDigits_ofDigits hr hr', byteDigits_ofDigits hg hg',
        byteDigits_ofDigits hb hb']
      rfl
    case h_2 => cases h
  · intro h
    -- either case has the same values, and one byte for each digit
    have hdigits := mapM_hexDigit?_digits color
    have hcase : Text.hexDigit? ∘ Char.toLower = Text.hexDigit? := funext Text.hexDigit?_toLower
    rw [← h, List.mapM_map, hcase] at hdigits
    have hsize : (String.ofList (dropMark text.toList)).utf8ByteSize = 6 := by
      rw [Text.utf8ByteSize_ofList (Text.map_toLower_of_mapM hdigits).2.2,
        ← List.length_map Char.toLower, h]
      rfl
    unfold ofHex
    simp only [hsize, hdigits, ofDigits_div_mod, ne_eq, not_true_eq_false, if_false]

/-- `ofHex` is a left inverse of `toHex`. -/
theorem ofHex_toHex (color : Rgb) : ofHex color.toHex = .ok color := by
  rw [ofHex_eq_ok_iff, toList_toHex, dropMark, map_toLower_digits]

theorem trim_toHex (color : Rgb) : Text.trim color.toHex = color.toHex := by
  apply Text.trim_eq_self
  intro c hc
  rw [toList_toHex] at hc
  rcases List.mem_cons.mp hc with rfl | hdigit
  · decide
  · obtain ⟨n, hn⟩ := exists_hexDigit?_of_mem_digits hdigit
    exact Text.isBlank_of_hexDigit? hn

/-! ### Spellings -/

/-- The digits of a string in lower case, without surrounding blanks and a leading `#`. -/
def spelling (text : String) : List Char :=
  (dropMark (Text.trim text).toList).map Char.toLower

/-- A string that names a colour. -/
def Spells (text : String) (color : Rgb) : Prop :=
  spelling text = color.digits

instance decidableSpells (text : String) (color : Rgb) : Decidable (Spells text color) :=
  inferInstanceAs (Decidable (_ = _))

theorem spells_iff {text : String} {color : Rgb} :
    Spells text color ↔ ofHex (Text.trim text) = .ok color :=
  ofHex_eq_ok_iff.symm

theorem Spells.unique {text : String} {color other : Rgb} (h : Spells text color)
    (h' : Spells text other) : color = other :=
  Except.ok.inj ((spells_iff.mp h).symm.trans (spells_iff.mp h'))

end Rgb

end DesignTokens

import DesignTokens.Proofs.Color.Hex
import DesignTokens.Proofs.Datum
import DesignTokens.Proofs.Json.Number

/-!
# Written JSON is read back

The JSON of every `Datum` is read back as its `image` (`read?_pretty_append`): the value itself,
except that JSON has no NaN, no `±∞`, no date-times and no integers of more than 64 bits.

`Reads text datum` says that a text is read as a value, whatever follows that cannot continue a
number, and `ReadsItems` and `ReadsFields` that it is read as what follows the first element of an
array or the first member of an object.  There is one lemma for each way to write a value.
-/

namespace DesignTokens.Json

open Number

/-! ### Values that JSON has -/

mutual

/-- What a value is read back as. -/
def image : Datum → Datum
  | .null => .null
  | .bool b => .bool b
  | .integer n => if isWhole n then .integer n else floatDatum (n < 0) ⟨n.natAbs, 0⟩
  | .float x => if x.isFinite then .float x else .null
  | .text s => .text s
  | .list items => .list (imageItems items)
  | .table fields => .table (imageFields fields)
  | .moment | .unreadable => .null

/-- What the elements of an array are read back as. -/
def imageItems : List Datum → List Datum
  | [] => []
  | item :: items => image item :: imageItems items

/-- What the members of an object are read back as. -/
def imageFields : List (String × Datum) → List (String × Datum)
  | [] => []
  | (key, value) :: fields => (key, image value) :: imageFields fields

end

theorem imageItems_eq_map (items : List Datum) : imageItems items = items.map image := by
  induction items with
  | nil => rfl
  | cons item items ih => rw [imageItems, ih, List.map_cons]

theorem keys_imageFields (fields : List (String × Datum)) :
    (imageFields fields).map Prod.fst = fields.map Prod.fst := by
  induction fields with
  | nil => rfl
  | cons field fields ih => rw [imageFields, List.map_cons, List.map_cons, ih]

theorem lookup_imageFields (key : String) (fields : List (String × Datum)) :
    (imageFields fields).lookup key = (fields.lookup key).map image := by
  induction fields with
  | nil => rfl
  | cons field fields ih =>
    obtain ⟨name, value⟩ := field
    rw [imageFields, Datum.lookup_cons, Datum.lookup_cons, ih]
    split_ifs <;> rfl

/-- `image` commutes with `get?`. -/
theorem get?_image (key : String) (datum : Datum) :
    (image datum).get? key = (datum.get? key).map image := by
  cases datum with
  | table fields => exact lookup_imageFields key fields
  | integer n =>
    unfold image floatDatum
    dsimp only
    split_ifs <;> rfl
  | float x =>
    unfold image
    split_ifs <;> rfl
  | _ => rfl

mutual

/-- The floats of an `image` are finite. -/
theorem isFinite_of_mem_floats_image :
    (datum : Datum) → ∀ x ∈ (image datum).floats, x.isFinite = true
  | .integer n => by
    unfold image floatDatum
    dsimp only
    split_ifs with _ hfinite
    · nofun
    · intro x hx
      obtain rfl := List.mem_singleton.mp hx
      exact isFinite_negateIf _ hfinite
    · nofun
  | .float y => by
    unfold image
    split_ifs with hfinite
    · intro x hx
      obtain rfl := List.mem_singleton.mp hx
      exact hfinite
    · nofun
  | .list items => isFinite_of_mem_floats_imageItems items
  | .table fields => isFinite_of_mem_floats_imageFields fields
  | .null | .bool _ | .text _ | .moment | .unreadable => nofun

theorem isFinite_of_mem_floats_imageItems :
    (items : List Datum) → ∀ x ∈ Datum.itemFloats (imageItems items), x.isFinite = true
  | [] => nofun
  | item :: items => List.forall_mem_append.mpr
    ⟨isFinite_of_mem_floats_image item, isFinite_of_mem_floats_imageItems items⟩

theorem isFinite_of_mem_floats_imageFields :
    (fields : List (String × Datum)) → ∀ x ∈ Datum.fieldFloats (imageFields fields),
      x.isFinite = true
  | [] => nofun
  | (_, value) :: fields => List.forall_mem_append.mpr
    ⟨isFinite_of_mem_floats_image value, isFinite_of_mem_floats_imageFields fields⟩

end

mutual

/-- `image` commutes with `valuesOf`. -/
theorem valuesOf_image (key : String) :
    (datum : Datum) → (image datum).valuesOf key = (datum.valuesOf key).map image
  | .integer n => by
    unfold image floatDatum
    dsimp only
    split_ifs <;> rfl
  | .float x => by
    unfold image
    split_ifs <;> rfl
  | .list items => itemValues_imageItems key items
  | .table fields => fieldValues_imageFields key fields
  | .null | .bool _ | .text _ | .moment | .unreadable => rfl

theorem itemValues_imageItems (key : String) :
    (items : List Datum) →
      Datum.itemValues key (imageItems items) = (Datum.itemValues key items).map image
  | [] => rfl
  | item :: items => by
    rw [imageItems, Datum.itemValues, Datum.itemValues, List.map_append, valuesOf_image key item,
      itemValues_imageItems key items]

theorem fieldValues_imageFields (key : String) :
    (fields : List (String × Datum)) →
      Datum.fieldValues key (imageFields fields) = (Datum.fieldValues key fields).map image
  | [] => rfl
  | (name, value) :: fields => by
    rw [imageFields, Datum.fieldValues, Datum.fieldValues, List.map_append, List.map_append,
      valuesOf_image key value, fieldValues_imageFields key fields]
    split_ifs <;> rfl

end

/-! ### Spaces -/

theorem skipSpace_cons {c : Char} (h : isSpace c = false) (cs : List Char) :
    skipSpace (c :: cs) = c :: cs := by
  simp [skipSpace, h]

/-- A line break and its indentation are skipped. -/
theorem skipSpace_newline (depth : ℕ) (cs : List Char) :
    skipSpace (newline depth ++ cs) = skipSpace cs := by
  refine List.dropWhile_append_of_pos ?_
  intro c hc
  rcases List.mem_cons.mp hc with rfl | hc
  · decide
  · rw [List.eq_of_mem_replicate hc]
    decide

theorem endsNumber_newline (depth : ℕ) (cs : List Char) : EndsNumber (newline depth ++ cs) :=
  endsNumber_cons (by decide) _

/-! ### Strings -/

/-- An escaped character is read back as its code point. -/
theorem readCodes_escape (c : Char) (cs : List Char) :
    readCodes (escape c ++ cs) = (readCodes cs).map fun (codes, cs) => (c.toNat :: codes, cs) := by
  unfold escape
  split_ifs with hquote hslash hb hf hn hr ht hcontrol
  · subst hquote
    rfl
  · subst hslash
    rfl
  · subst hb
    rfl
  · subst hf
    rfl
  · subst hn
    rfl
  · subst hr
    rfl
  · subst ht
    rfl
  · unfold unicodeEscape
    simp only [List.cons_append, List.nil_append]
    rw [readCodes, Text.ofHexDigits?_byte (by omega)]
  · -- an unescaped character is none of those that the reader stops at
    rw [List.singleton_append]
    conv_lhs => unfold readCodes
    split
    case h_1 => exact absurd ‹_› (List.cons_ne_nil c cs)
    case h_2 heq => exact absurd (List.cons.inj heq).1 hquote
    case h_3 heq => exact absurd (List.cons.inj heq).1 hslash
    case h_4 heq => exact absurd (List.cons.inj heq).1 hslash
    case h_5 heq =>
      obtain ⟨rfl, rfl⟩ := List.cons.inj heq
      rw [if_neg (by simp [hslash, hcontrol])]

theorem readCodes_escaped (cs rest : List Char) :
    readCodes (cs.flatMap escape ++ '"' :: rest) = some (cs.map Char.toNat, rest) := by
  induction cs with
  | nil => rfl
  | cons c cs ih =>
    rw [List.flatMap_cons, List.append_assoc, readCodes_escape, ih, Option.map_some, List.map_cons]

/-- No character is a surrogate. -/
theorem not_half (c : Char) : isHighHalf c.toNat = false ∧ isLowHalf c.toNat = false := by
  have hvalid : c.toNat < 0xd800 ∨ 0xdfff < c.toNat ∧ c.toNat < 0x110000 := c.valid
  simp only [isHighHalf, isLowHalf, Bool.and_eq_false_iff, decide_eq_false_iff_not]
  omega

theorem joinCodes_toNat (cs : List Char) : joinCodes (cs.map Char.toNat) = some cs := by
  induction cs with
  | nil => rfl
  | cons c cs ih =>
    obtain ⟨hhigh, hlow⟩ := not_half c
    cases cs with
    | nil => simp [joinCodes, hhigh, hlow]
    | cons d cs =>
      rw [List.map_cons] at ih
      simp [joinCodes, hhigh, hlow, ih]

theorem text_append (s : String) (rest : List Char) :
    text s ++ rest = '"' :: (s.toList.flatMap escape ++ '"' :: rest) := by
  simp [text]

theorem readKey_escaped (key : String) (rest : List Char) :
    readKey (key.toList.flatMap escape ++ '"' :: ':' :: rest) = some (key, rest) := by
  have hspace : skipSpace (':' :: rest) = ':' :: rest := skipSpace_cons (by decide) rest
  simp [readKey, readCodes_escaped, joinCodes_toNat, hspace]

/-! ### Values -/

/-- A text that is read as a value, whatever follows that cannot continue a number. -/
structure Reads (text : List Char) (datum : Datum) : Prop where
  opening : ∃ c cs, text = c :: cs ∧ isSpace c = false ∧ c ≠ ']'
  reads : ∀ fuel rest, text.length ≤ fuel → EndsNumber rest →
    readValue fuel (text ++ rest) = some (datum, rest)

/-- Fuel for the first character is always there. -/
theorem Reads.intro {c : Char} {cs : List Char} {datum : Datum} (hspace : isSpace c = false)
    (hbracket : c ≠ ']') (h : ∀ fuel rest, cs.length ≤ fuel → EndsNumber rest →
      readValue (fuel + 1) (c :: (cs ++ rest)) = some (datum, rest)) : Reads (c :: cs) datum := by
  refine ⟨⟨c, cs, rfl, hspace, hbracket⟩, ?_⟩
  intro fuel rest hfuel hrest
  obtain ⟨fuel, rfl⟩ := Nat.exists_eq_succ_of_ne_zero (by simp at hfuel; omega : fuel ≠ 0)
  exact h fuel rest (by simpa using hfuel) hrest

theorem reads_null : Reads "null".toList .null :=
  .intro (by decide) (by decide) fun _ _ _ _ => rfl

theorem reads_bool (b : Bool) : Reads (if b then "true".toList else "false".toList) (.bool b) := by
  cases b with
  | true => exact .intro (by decide) (by decide) fun _ _ _ _ => rfl
  | false => exact .intro (by decide) (by decide) fun _ _ _ _ => rfl

theorem reads_text (s : String) : Reads (text s) (.text s) := by
  refine .intro (by decide) (by decide) fun fuel rest _ _ => ?_
  change readValue (fuel + 1) (text s ++ rest) = _
  rw [text_append]
  unfold readValue
  rw [skipSpace_cons (by decide)]
  simp [readCodes_escaped, textDatum, joinCodes_toNat]

theorem readValue_newline (fuel depth : ℕ) (cs : List Char) :
    readValue fuel (newline depth ++ cs) = readValue fuel cs := by
  cases fuel with
  | zero => rfl
  | succ fuel => rw [readValue, readValue, skipSpace_newline]

theorem readValue_space (fuel : ℕ) (cs : List Char) :
    readValue fuel (' ' :: cs) = readValue fuel cs := by
  cases fuel with
  | zero => rfl
  | succ fuel =>
    have hskip : skipSpace (' ' :: cs) = skipSpace cs := rfl
    rw [readValue, readValue, hskip]

section Numbers

variable {c : Char}

theorem ne_of_number (hc : c.isDigit = true ∨ c = '-') {d : Char} (hd : d.isDigit = false)
    (hminus : d ≠ '-') : c ≠ d := by
  rintro rfl
  exact hc.elim (fun h => absurd h (by simp [hd])) hminus

theorem isSpace_of_number (hc : c.isDigit = true ∨ c = '-') : isSpace c = false := by
  simp [isSpace, ne_of_number hc (show ' '.isDigit = false by decide) (by decide),
    ne_of_number hc (show '\t'.isDigit = false by decide) (by decide),
    ne_of_number hc (show '\n'.isDigit = false by decide) (by decide),
    ne_of_number hc (show '\r'.isDigit = false by decide) (by decide)]

/-- Where a digit or a sign stands, a number is read. -/
theorem readValue_number (fuel : ℕ) (hc : c.isDigit = true ∨ c = '-') (cs : List Char) :
    readValue (fuel + 1) (c :: cs) = readNumber (c :: cs) := by
  unfold readValue
  rw [skipSpace_cons (isSpace_of_number hc)]
  split
  case h_1 heq => exact absurd (List.cons.inj heq).1 (ne_of_number hc (by decide) (by decide))
  case h_2 heq => exact absurd (List.cons.inj heq).1 (ne_of_number hc (by decide) (by decide))
  case h_3 heq => exact absurd (List.cons.inj heq).1 (ne_of_number hc (by decide) (by decide))
  case h_4 heq => exact absurd (List.cons.inj heq).1 (ne_of_number hc (by decide) (by decide))
  case h_5 heq => exact absurd (List.cons.inj heq).1 (ne_of_number hc (by decide) (by decide))
  case h_6 heq => exact absurd (List.cons.inj heq).1 (ne_of_number hc (by decide) (by decide))
  case h_7 => rfl

theorem reads_number {negative : Bool} {cs : List Char} {datum : Datum} (h : BeginsWithDigit cs)
    (hread : ∀ rest, EndsNumber rest →
      readNumber (signed negative cs ++ rest) = some (datum, rest)) :
    Reads (signed negative cs) datum := by
  obtain ⟨c, tail, hcs, hc⟩ :
      ∃ c tail, signed negative cs = c :: tail ∧ (c.isDigit = true ∨ c = '-') := by
    obtain ⟨c, tail, rfl, hc⟩ := h
    cases negative with
    | true => exact ⟨'-', _, rfl, .inr rfl⟩
    | false => exact ⟨c, tail, rfl, .inl hc⟩
  rw [hcs] at hread ⊢
  refine .intro (isSpace_of_number hc) (ne_of_number hc (by decide) (by decide)) fun fuel
    rest _ hrest => ?_
  rw [readValue_number fuel hc, ← List.cons_append, hread rest hrest]

theorem reads_integer (n : ℤ) : Reads (integer n) (image (.integer n)) :=
  reads_number (beginsWithDigit_of_isNumeral (Decimal.isNumeral_toDigits n.natAbs)) fun _ hrest =>
    readNumber_integer n hrest

theorem reads_float (x : Float) : Reads (float x) (image (.float x)) := by
  unfold float image
  cases hx : x.isFinite with
  | false => exact reads_null
  | true =>
    obtain ⟨negative, d, hnormal, hd, rfl, htext⟩ := floatStyle.exists_layout hx
    rw [if_pos rfl, if_pos rfl, htext]
    exact reads_number (beginsWithDigit_layout d) fun _ hrest =>
      readNumber_layout negative hnormal hd hrest

end Numbers

/-! ### Arrays -/

section Lists

variable {text tail : List Char} {datum : Datum} {items : List Datum}

/-- A text that is read as the elements after the first, up to `]`. -/
def ReadsItems (tail : List Char) (items : List Datum) : Prop :=
  ∀ {text datum}, Reads text datum → ∀ fuel rest, text.length + tail.length ≤ fuel →
    readItems fuel (text ++ (tail ++ rest)) = some (datum :: items, rest)

theorem readItems_last (h : Reads text datum) {fuel : ℕ} (hfuel : text.length ≤ fuel)
    (htail : EndsNumber tail) {rest : List Char} (hrest : skipSpace tail = ']' :: rest) :
    readItems (fuel + 1) (text ++ tail) = some ([datum], rest) := by
  simp only [readItems, h.reads fuel tail hfuel htail, hrest]

theorem readItems_more (h : Reads text datum) {fuel : ℕ} (hfuel : text.length ≤ fuel)
    (htail : EndsNumber tail) {rest : List Char} (hrest : skipSpace tail = ',' :: rest) :
    readItems (fuel + 1) (text ++ tail) = (readItems fuel rest).map fun (items, cs) =>
    (datum :: items, cs) := by
  simp only [readItems, h.reads fuel tail hfuel htail, hrest]

theorem readItems_newline (fuel depth : ℕ) (cs : List Char) :
    readItems fuel (newline depth ++ cs) = readItems fuel cs := by
  cases fuel with
  | zero => rfl
  | succ fuel => rw [readItems, readItems, readValue_newline]

theorem readsItems_nil (depth : ℕ) : ReadsItems (newline depth ++ [']']) [] := by
  intro text datum h fuel rest hfuel
  obtain ⟨fuel, rfl⟩ := Nat.exists_eq_succ_of_ne_zero (by simp at hfuel; omega : fuel ≠ 0)
  simp only [List.length_append, List.length_singleton] at hfuel
  have hskip : skipSpace (newline depth ++ ([']'] ++ rest)) = ']' :: rest := by
    rw [skipSpace_newline]
    exact skipSpace_cons (by decide) rest
  rw [List.append_assoc]
  exact readItems_last h (by omega) (endsNumber_newline depth _) hskip

theorem readsItems_cons (depth : ℕ) (h : Reads text datum) (htail : ReadsItems tail items) :
    ReadsItems (',' :: (newline depth ++ text ++ tail)) (datum :: items) := by
  intro first datum' hfirst fuel rest hfuel
  obtain ⟨fuel, rfl⟩ := Nat.exists_eq_succ_of_ne_zero (by simp at hfuel; omega : fuel ≠ 0)
  simp only [List.length_cons, List.length_append] at hfuel
  rw [List.cons_append,
    readItems_more hfirst (by omega) (endsNumber_cons (by decide) _) (skipSpace_cons (by decide) _),
    List.append_assoc, List.append_assoc, readItems_newline, htail h fuel rest (by omega)]
  rfl

theorem readValue_bracket (fuel : ℕ) {c : Char} {cs tail : List Char} (h : skipSpace cs = c :: tail)
    (hc : c ≠ ']') :
    readValue (fuel + 1) ('[' :: cs) = (readItems fuel (c :: tail)).map fun (items, cs) =>
    (.list items, cs) := by
  have hopen : skipSpace ('[' :: cs) = '[' :: cs := skipSpace_cons (by decide) cs
  simp only [readValue, hopen, h]
  split
  case h_1 heq => exact absurd (List.cons.inj heq).1 hc
  case h_2 => rfl

theorem reads_list (depth : ℕ) (h : Reads text datum) (htail : ReadsItems tail items) :
    Reads ('[' :: (newline depth ++ text ++ tail)) (.list (datum :: items)) := by
  refine .intro (by decide) (by decide) fun fuel rest hfuel _ => ?_
  simp only [List.length_append] at hfuel
  have hitems := htail h fuel rest (by omega)
  obtain ⟨c, cs, hcs, hspace, hbracket⟩ := h.opening
  subst hcs
  have hskip :
      skipSpace (newline depth ++ (c :: cs ++ (tail ++ rest))) = c :: (cs ++ (tail ++ rest)) := by
    rw [skipSpace_newline, List.cons_append, skipSpace_cons hspace]
  rw [List.append_assoc, List.append_assoc, readValue_bracket fuel hskip hbracket,
    ← List.cons_append, hitems]
  rfl

end Lists

/-! ### Objects -/

section Tables

variable {key : String} {text tail : List Char} {datum : Datum} {fields : List (String × Datum)}

/-- A text that is read as the members after the first, up to `}`. -/
def ReadsFields (tail : List Char) (fields : List (String × Datum)) : Prop :=
  ∀ key {text datum}, Reads text datum →
    ∀ fuel rest, (Json.text key).length + text.length + tail.length ≤ fuel →
    readFields fuel (Json.text key ++ ':' :: ' ' :: (text ++ (tail ++ rest))) =
      some ((key, datum) :: fields, rest)

theorem readFields_last (key : String) (h : Reads text datum) {fuel : ℕ}
    (hfuel : text.length ≤ fuel) (htail : EndsNumber tail) {rest : List Char}
    (hrest : skipSpace tail = '\x7d' :: rest) :
    readFields (fuel + 1) (Json.text key ++ ':' :: ' ' :: (text ++ tail)) =
      some ([(key, datum)], rest) := by
  rw [text_append, readFields, skipSpace_cons (by decide)]
  simp only [readKey_escaped, readValue_space, h.reads fuel tail hfuel htail, hrest]

theorem readFields_more (key : String) (h : Reads text datum) {fuel : ℕ}
    (hfuel : text.length ≤ fuel) (htail : EndsNumber tail) {rest : List Char}
    (hrest : skipSpace tail = ',' :: rest) :
    readFields (fuel + 1) (Json.text key ++ ':' :: ' ' :: (text ++ tail)) =
      (readFields fuel rest).map fun (fields, cs) => ((key, datum) :: fields, cs) := by
  rw [text_append, readFields, skipSpace_cons (by decide)]
  simp only [readKey_escaped, readValue_space, h.reads fuel tail hfuel htail, hrest]

theorem readFields_newline (fuel depth : ℕ) (cs : List Char) :
    readFields fuel (newline depth ++ cs) = readFields fuel cs := by
  cases fuel with
  | zero => rfl
  | succ fuel => rw [readFields, readFields, skipSpace_newline]

theorem readsFields_nil (depth : ℕ) : ReadsFields (newline depth ++ ['\x7d']) [] := by
  intro key text datum h fuel rest hfuel
  obtain ⟨fuel, rfl⟩ := Nat.exists_eq_succ_of_ne_zero (by simp at hfuel; omega : fuel ≠ 0)
  simp only [List.length_append, List.length_singleton] at hfuel
  have hskip : skipSpace (newline depth ++ (['\x7d'] ++ rest)) = '\x7d' :: rest := by
    rw [skipSpace_newline]
    exact skipSpace_cons (by decide) rest
  rw [List.append_assoc]
  exact readFields_last key h (by omega) (endsNumber_newline depth _) hskip

theorem readsFields_cons (depth : ℕ) (key : String) (h : Reads text datum)
    (htail : ReadsFields tail fields) :
    ReadsFields (',' :: (newline depth ++ Json.text key ++ ':' :: ' ' :: text ++ tail))
      ((key, datum) :: fields) := by
  intro first text' datum' hfirst fuel rest hfuel
  obtain ⟨fuel, rfl⟩ := Nat.exists_eq_succ_of_ne_zero (by simp at hfuel; omega : fuel ≠ 0)
  simp only [List.length_cons, List.length_append] at hfuel
  have hcomma := skipSpace_cons (show isSpace ',' = false by decide)
    (newline depth ++ (Json.text key ++ ':' :: ' ' :: (text ++ (tail ++ rest))))
  have hmore := readFields_more first hfirst (by omega : text'.length ≤ fuel)
    (endsNumber_cons (by decide) _) hcomma
  rw [readFields_newline, htail key h fuel rest (by omega)] at hmore
  simpa using hmore

theorem readValue_brace (fuel : ℕ) {cs tail : List Char} (h : skipSpace cs = '"' :: tail) :
    readValue (fuel + 1) ('\x7b' :: cs) =
      (readFields fuel ('"' :: tail)).map fun (fields, cs) => (.table fields, cs) := by
  have hopen : skipSpace ('\x7b' :: cs) = '\x7b' :: cs := skipSpace_cons (by decide) cs
  simp only [readValue, hopen, h]
  rfl

theorem reads_table (depth : ℕ) (key : String) (h : Reads text datum)
    (htail : ReadsFields tail fields) :
    Reads ('\x7b' :: (newline depth ++ Json.text key ++ ':' :: ' ' :: text ++ tail))
      (.table ((key, datum) :: fields)) := by
  refine .intro (by decide) (by decide) fun fuel rest hfuel _ => ?_
  simp only [List.length_append, List.length_cons] at hfuel
  have hfields := htail key h fuel rest (by omega)
  have hskip :
      skipSpace (newline depth ++ (Json.text key ++ ':' :: ' ' :: (text ++ (tail ++ rest)))) =
      Json.text key ++ ':' :: ' ' :: (text ++ (tail ++ rest)) := by
    rw [skipSpace_newline, text_append, skipSpace_cons (by decide)]
  rw [text_append] at hfields hskip
  have hread := readValue_brace fuel hskip
  rw [hfields] at hread
  simpa [text_append] using hread

end Tables

/-! ### Documents -/

mutual

/-- The JSON of a value is read back as its `image`. -/
theorem reads_prettyChars (depth : ℕ) :
    (datum : Datum) → Reads (prettyChars depth datum) (image datum)
  | .null => reads_null
  | .bool true => reads_bool true
  | .bool false => reads_bool false
  | .integer n => reads_integer n
  | .float x => reads_float x
  | .text s => reads_text s
  | .list [] => .intro (by decide) (by decide) fun _ _ _ _ => rfl
  | .list (item :: items) =>
    reads_list (depth + 1) (reads_prettyChars (depth + 1) item) (readsItems_prettyItems depth items)
  | .table [] => .intro (by decide) (by decide) fun _ _ _ _ => rfl
  | .table ((key, value) :: fields) =>
    reads_table (depth + 1) key (reads_prettyChars (depth + 1) value)
      (readsFields_prettyFields depth fields)
  | .moment => reads_null
  | .unreadable => reads_null

theorem readsItems_prettyItems (depth : ℕ) :
    (items : List Datum) → ReadsItems (prettyItems depth items) (imageItems items)
  | [] => readsItems_nil depth
  | item :: items =>
    readsItems_cons (depth + 1) (reads_prettyChars (depth + 1) item)
      (readsItems_prettyItems depth items)

theorem readsFields_prettyFields (depth : ℕ) :
    (fields : List (String × Datum)) → ReadsFields (prettyFields depth fields) (imageFields fields)
  | [] => readsFields_nil depth
  | (key, value) :: fields =>
    readsFields_cons (depth + 1) key (reads_prettyChars (depth + 1) value)
      (readsFields_prettyFields depth fields)

end

/-- The JSON of a value is read back as its `image`, whatever whitespace follows. -/
theorem read?_pretty_append (datum : Datum) (spaces : String)
    (h : ∀ c ∈ spaces.toList, isSpace c = true) :
    read? (pretty datum ++ spaces) = some (image datum) := by
  have hends : EndsNumber spaces.toList := by
    intro c hc
    have hspace := h c (List.mem_of_mem_head? hc)
    simp only [isSpace, Bool.or_eq_true, beq_iff_eq] at hspace
    rcases hspace with ((rfl | rfl) | rfl) | rfl <;> decide
  have hread := (reads_prettyChars 0 datum).reads
    (2 * (prettyChars 0 datum ++ spaces.toList).length + 2) _
    (by rw [List.length_append]; omega) hends
  have hrest : skipSpace spaces.toList = [] := List.dropWhile_eq_nil_iff.mpr h
  unfold read? pretty
  simp only [String.toList_append, String.toList_ofList, hread, hrest]
  rfl

theorem read?_pretty (datum : Datum) : read? (pretty datum) = some (image datum) := by
  have hread := read?_pretty_append datum "" (by simp)
  rwa [String.append_empty] at hread

end DesignTokens.Json

import DesignTokens.Proofs.Color.Hex
import DesignTokens.Proofs.Toml.Scalar
import DesignTokens.Toml.Reader

/-!
# Written values are read back

`Written depth text datum` says that a text is read as a value, whatever closes it: a line break, a
comma or a bracket.  It holds of the text of every value that TOML has and that is not nested too
deeply (`written_value`); arrays are built from the texts of their elements, on one line or on many.
-/

namespace DesignTokens.Toml

open Number Decimal

/-! ### What closes a value -/

/-- Whether a character ends a value: a line break, a comma or a closing bracket. -/
def isClosing (c : Char) : Bool :=
  c == '\n' || c == ',' || c == ']'

/-- A text that begins with a character that ends a value. -/
def Closes (rest : List Char) : Prop :=
  ∃ c cs, rest = c :: cs ∧ isClosing c = true

/-- Whether a value may begin with a character: it belongs to no layout and closes nothing. -/
def isOpening (c : Char) : Bool :=
  !(isClosing c || isBlank c || c == '\r' || c == '#')

theorem ne_of_isAtom {c d : Char} (hc : isAtom c = true) (hd : isAtom d = false) : c ≠ d := by
  rintro rfl
  rw [hc] at hd
  exact Bool.noConfusion hd

theorem isAtom_of_isDigit {c : Char} (h : c.isDigit = true) : isAtom c = true := by
  simp [isAtom, Char.isAlphanum, h]

theorem isOpening_of_isAtom {c : Char} (h : isAtom c = true) : isOpening c = true := by
  have hne : ∀ d, isAtom d = false → (c == d) = false := fun d hd => by
    simpa using ne_of_isAtom h hd
  simp [isOpening, isClosing, isBlank, hne '\n' (by decide), hne ',' (by decide),
    hne ']' (by decide), hne ' ' (by decide), hne '\t' (by decide), hne '\r' (by decide),
    hne '#' (by decide)]

theorem isAtom_of_isClosing {c : Char} (h : isClosing c = true) :
    isAtom c = false ∧ c ≠ ' ' ∧ c ≠ '"' := by
  simp only [isClosing, Bool.or_eq_true, beq_iff_eq] at h
  rcases h with (rfl | rfl) | rfl <;> decide

/-- Nothing is skipped in front of a value. -/
theorem skipLayout_opening {c : Char} (h : isOpening c = true) (cs : List Char) :
    skipLayout false (c :: cs) = some (c :: cs) := by
  simp only [isOpening, isClosing, Bool.not_eq_true', Bool.or_eq_false_iff,
    beq_eq_false_iff_ne] at h
  obtain ⟨⟨⟨⟨⟨hline, -⟩, -⟩, hblank⟩, hreturn⟩, hcomment⟩ := h
  unfold skipLayout
  split <;> simp_all

theorem skipLayout_closing {c : Char} (h : c = ',' ∨ c = ']') (cs : List Char) :
    skipLayout false (c :: cs) = some (c :: cs) := by
  rcases h with rfl | rfl
  · rfl
  · rfl

/-! ### Atoms -/

theorem spanAtom_append {atom rest : List Char} (hatom : ∀ c ∈ atom, isAtom c = true)
    (hrest : Closes rest) : spanAtom (atom ++ rest) = (atom, rest) := by
  obtain ⟨c, cs, rfl, hc⟩ := hrest
  obtain ⟨hc, hspace, -⟩ := isAtom_of_isClosing hc
  obtain ⟨htake, hdrop⟩ := Text.run_append hatom (c :: cs) (by simpa using hc)
  unfold spanAtom
  rw [htake, hdrop]
  split
  case h_1 heq => exact absurd (List.cons.inj heq).1 hspace
  case h_2 => rfl

/-- A text that is read as a value, nested at most `depth` arrays deep, whatever closes it. -/
structure Written (depth : ℕ) (text : List Char) (datum : Datum) : Prop where
  opening : ∃ c cs, text = c :: cs ∧ isOpening c = true
  reads : ∀ fuel rest, text.length ≤ fuel → Closes rest →
    readValue fuel depth (text ++ rest) = some (datum, rest)

theorem written_atom (depth : ℕ) {atom : List Char} {datum : Datum} (hne : atom ≠ [])
    (hatom : ∀ c ∈ atom, isAtom c = true) (hscalar : scalar? atom = some datum) :
    Written depth atom datum := by
  obtain ⟨c, cs, rfl⟩ := List.exists_cons_of_ne_nil hne
  have hc := hatom c (List.mem_cons_self ..)
  refine ⟨⟨c, cs, rfl, isOpening_of_isAtom hc⟩, ?_⟩
  intro fuel rest hfuel hrest
  obtain ⟨fuel, rfl⟩ := Nat.exists_eq_succ_of_ne_zero (by simp at hfuel; omega : fuel ≠ 0)
  have hspan := spanAtom_append hatom hrest
  rw [List.cons_append] at hspan ⊢
  unfold readValue
  split
  case h_1 heq => exact absurd (List.cons.inj heq).1 (ne_of_isAtom hc (by decide))
  case h_2 heq => exact absurd (List.cons.inj heq).1 (ne_of_isAtom hc (by decide))
  case h_3 heq => exact absurd (List.cons.inj heq).1 (ne_of_isAtom hc (by decide))
  case h_4 heq => exact absurd (List.cons.inj heq).1 (ne_of_isAtom hc (by decide))
  case h_5 =>
    rw [hspan]
    simp [hscalar]

theorem written_integer (depth : ℕ) {n : ℤ} (hn : fits 64 n = true) :
    Written depth (integer n) (.integer n) := by
  have hnumeral := isNumeral_toDigits n.natAbs
  refine written_atom depth ?_ ?_ (scalar?_integer hn)
  · unfold integer signed
    split
    case isTrue => simp
    case isFalse => exact hnumeral.ne_nil
  · exact forall_mem_signed rfl fun c hc => isAtom_of_isDigit (hnumeral.allDigits c hc)

theorem isAtom_of_mem_layout (negative : Bool) {d : Decimal} (hd : d.IsNormal) :
    ∀ c ∈ signed negative (layout d), isAtom c = true := by
  obtain ⟨whole, fraction, htext, -, hsplits⟩ := layout_splits hd
  have hdecimal := isDecimalText_point hsplits.isNumeral hsplits.allDigits
  refine forall_mem_signed rfl ?_
  intro c hc
  rw [htext] at hc
  rcases hdecimal.chars c hc with hdigit | rfl
  · exact isAtom_of_isDigit hdigit
  · decide

theorem isAtom_of_mem_float (x : Float) : ∀ c ∈ (floatStyle.write x).toList, isAtom c = true := by
  unfold Style.write
  split
  case h_1 => exact List.all_eq_true.mp (by decide)
  case h_2 negative _ =>
    rw [String.toList_ofList]
    cases negative <;> exact List.all_eq_true.mp (by decide)
  case h_3 negative _ _ =>
    rw [String.toList_ofList]
    dsimp only [floatStyle]
    exact isAtom_of_mem_layout negative (Or.inl rfl)
  case h_4 negative s e _ _ =>
    rw [String.toList_ofList]
    dsimp only [floatStyle]
    exact isAtom_of_mem_layout negative (isNormal_shortest ..)

theorem written_float (depth : ℕ) (x : Float) :
    Written depth (floatStyle.write x).toList (.float x) := by
  refine written_atom depth ?_ (isAtom_of_mem_float x) (scalar?_float x)
  intro hnil
  have hread := scalar?_float x
  rw [hnil] at hread
  exact absurd hread (by simp [show scalar? [] = none from rfl])

theorem written_bool (depth : ℕ) (b : Bool) : Written depth (value (.bool b)) (.bool b) := by
  cases b with
  | true => exact written_atom depth (by decide) (List.all_eq_true.mp (by decide)) rfl
  | false => exact written_atom depth (by decide) (List.all_eq_true.mp (by decide)) rfl

/-! ### Strings -/

/-- A character that is escaped is an ASCII character. -/
theorem toNat_lt_of_escaped {c : Char} (h : ¬(isPlain c && c != '"' && c != '\\') = true) :
    c.toNat < 128 := by
  by_contra hge
  apply h
  have hne : ∀ d : Char, d.toNat < 128 → c ≠ d := by
    rintro d hd rfl
    exact hge hd
  have hplain : isPlain c = true := by
    simp only [isPlain, Bool.or_eq_true, Bool.and_eq_true, decide_eq_true_eq]
    right
    omega
  simp [hplain, hne '"' (by decide), hne '\\' (by decide)]

/-- The four digits of a small code name its character. -/
theorem charOfDigits?_code {c : Char} (hc : c.toNat < 128) :
    charOfDigits? ['0', '0', Nat.digitChar (c.toNat / 16), Nat.digitChar (c.toNat % 16)] =
      some c := by
  rw [charOfDigits?, Text.ofHexDigits?_byte (by omega), Option.bind_some, charOfCode?,
    if_pos (Or.inl (by omega)), Char.ofNat_toNat]

theorem readEscape_code {c : Char} (hc : c.toNat < 128) (rest : List Char) :
    readEscape ('u' :: '0' :: '0' :: Nat.digitChar (c.toNat / 16) ::
      Nat.digitChar (c.toNat % 16) :: rest) =
      some (c, rest) := by
  simp [readEscape, codeDigits?, charOfDigits?_code hc]

/-- A basic string is read character by character up to its closing quote. -/
theorem readBasic_escaped (cs : List Char) :
    ∀ fuel rest, (cs.flatMap escape).length < fuel →
      readBasic fuel (cs.flatMap escape ++ '"' :: rest) = some (cs, rest) := by
  induction cs with
  | nil =>
    intro fuel rest hfuel
    obtain ⟨fuel, rfl⟩ := Nat.exists_eq_succ_of_ne_zero (by omega : fuel ≠ 0)
    simp [readBasic]
  | cons c cs ih =>
    intro fuel rest hfuel
    obtain ⟨fuel, rfl⟩ := Nat.exists_eq_succ_of_ne_zero (by omega : fuel ≠ 0)
    rw [List.flatMap_cons, List.length_append] at hfuel
    rw [List.flatMap_cons, List.append_assoc]
    by_cases hc : (isPlain c && c != '"' && c != '\\') = true
    · have hescape : escape c = [c] := if_pos hc
      rw [hescape] at hfuel ⊢
      simp only [Bool.and_eq_true, bne_iff_ne] at hc
      rw [List.length_singleton] at hfuel
      have htail := ih fuel rest (by omega)
      simp [readBasic, hc.1.1, hc.1.2, hc.2, htail]
    · have hescape : escape c =
          ['\\', 'u', '0', '0', Nat.digitChar (c.toNat / 16), Nat.digitChar (c.toNat % 16)] :=
        if_neg hc
      rw [hescape] at hfuel ⊢
      simp only [List.length_cons, List.length_nil] at hfuel
      have htail := ih fuel rest (by omega)
      simp only [List.cons_append, List.nil_append]
      simp [readBasic, readEscape_code (toNat_lt_of_escaped hc), htail]

theorem escape_head_ne (c : Char) : ∃ d ds, escape c = d :: ds ∧ d ≠ '"' := by
  unfold escape
  split
  case isTrue h =>
    simp only [Bool.and_eq_true, bne_iff_ne] at h
    exact ⟨c, [], rfl, h.1.2⟩
  case isFalse => exact ⟨_, _, rfl, by decide⟩

/-- A basic string is read back, unless one more quote follows it. -/
theorem readText_text (s : String) {rest : List Char} (hrest : rest.head? ≠ some '"') :
    readText (text s ++ rest) = some (s.toList, rest) := by
  have htext : text s ++ rest = '"' :: (s.toList.flatMap escape ++ '"' :: rest) := by simp [text]
  have hbasic := readBasic_escaped s.toList
    ((s.toList.flatMap escape ++ '"' :: rest).length + 1) rest
    (by simp only [List.length_append, List.length_cons]; omega)
  rw [htext]
  unfold readText
  split
  case h_1 cs heq =>
    -- neither the empty string nor another one begins with three quotes
    have htail := (List.cons.inj heq).2
    cases hchars : s.toList with
    | nil =>
      rw [hchars] at htail
      simp only [List.flatMap_nil, List.nil_append, List.cons.injEq, true_and] at htail
      rw [htail] at hrest
      exact absurd rfl hrest
    | cons c cs' =>
      obtain ⟨d, ds, hd, hne⟩ := escape_head_ne c
      rw [hchars, List.flatMap_cons, hd] at htail
      exact absurd (List.cons.inj htail).1 hne
  case h_2 heq => exact absurd (List.cons.inj heq).1 (by decide)
  case h_3 cs _ heq =>
    obtain rfl := (List.cons.inj heq).2
    exact hbasic
  case h_4 heq => exact absurd (List.cons.inj heq).1 (by decide)
  case h_5 h _ => exact absurd rfl (h _)

theorem written_text (depth : ℕ) (s : String) : Written depth (text s) (.text s) := by
  refine ⟨⟨'"', _, rfl, by decide⟩, ?_⟩
  intro fuel rest hfuel hrest
  obtain ⟨fuel, rfl⟩ := Nat.exists_eq_succ_of_ne_zero (by simp [text] at hfuel; omega : fuel ≠ 0)
  have hhead : rest.head? ≠ some '"' := by
    obtain ⟨c, cs, rfl, hc⟩ := hrest
    simpa using (isAtom_of_isClosing hc).2.2
  have hread := readText_text s hhead
  have htext : text s ++ rest = '"' :: (s.toList.flatMap escape ++ '"' :: rest) := by simp [text]
  rw [htext] at hread ⊢
  unfold readValue
  rw [hread]
  simp

/-! ### Arrays -/

section Lists

variable {depth : ℕ} {text : List Char} {datum : Datum}

/-- One item in front of what closes it. -/
theorem readItems_item (h : Written depth text datum) {fuel : ℕ} {rest : List Char}
    (hfuel : text.length < fuel) (hrest : Closes rest) :
    readItems fuel depth (text ++ rest) =
      match skipLayout false rest with
      | some (']' :: cs) => some ([datum], cs)
      | some (',' :: cs) => (readItems (fuel - 1) depth cs).map fun (items, cs) =>
        (datum :: items, cs)
      | _ => none := by
  obtain ⟨fuel, rfl⟩ := Nat.exists_eq_succ_of_ne_zero (by omega : fuel ≠ 0)
  have hread := h.reads fuel rest (by omega) hrest
  obtain ⟨c, cs, rfl, hc⟩ := h.opening
  have hlayout := skipLayout_opening hc (cs ++ rest)
  have hbracket : c ≠ ']' := by
    rintro rfl
    exact absurd hc (by decide)
  rw [List.cons_append] at hread ⊢
  conv_lhs => unfold readItems
  rw [hlayout]
  split
  case h_1 heq => exact absurd heq (by simp)
  case h_2 heq => exact absurd (List.cons.inj (Option.some.inj heq)).1 hbracket
  case h_3 heq =>
    obtain rfl := Option.some.inj heq
    rw [hread]
    rfl

theorem skipLayout_indent {c : Char} (hc : isOpening c = true) (cs : List Char) :
    skipLayout false ("\n    ".toList ++ c :: cs) = some (c :: cs) := by
  change skipLayout false (c :: cs) = some (c :: cs)
  exact skipLayout_opening hc cs

/-- Skipping layout in front of the items changes nothing. -/
theorem readItems_indent (depth fuel : ℕ) {c : Char} (hc : isOpening c = true) (cs : List Char) :
    readItems fuel depth ("\n    ".toList ++ c :: cs) = readItems fuel depth (c :: cs) := by
  cases fuel with
  | zero => rfl
  | succ fuel =>
    unfold readItems
    rw [skipLayout_indent hc, skipLayout_opening hc]

/-- Items on lines of their own, each with a comma behind it. -/
theorem readItems_itemLines {texts : List (List Char)} {data : List Datum}
    (h : List.Forall₂ (Written depth) texts data) :
    ∀ fuel rest, (itemLines texts).length + 1 < fuel →
      readItems fuel depth (itemLines texts ++ '\n' :: ']' :: rest) = some (data, rest) := by
  induction h with
  | nil =>
    intro fuel rest hfuel
    obtain ⟨fuel, rfl⟩ := Nat.exists_eq_succ_of_ne_zero (by omega : fuel ≠ 0)
    rfl
  | @cons text datum texts data hitem _ ih =>
    intro fuel rest hfuel
    have hlines : itemLines (text :: texts) ++ '\n' :: ']' :: rest =
        "\n    ".toList ++ (text ++ ',' :: (itemLines texts ++ '\n' :: ']' :: rest)) := by
      simp [itemLines]
    have hlength :
        (itemLines (text :: texts)).length = 6 + text.length + (itemLines texts).length := by
      simp [itemLines]
      omega
    obtain ⟨c, cs, hcs, hc⟩ := hitem.opening
    have hindent := readItems_indent depth fuel hc
      (cs ++ ',' :: (itemLines texts ++ '\n' :: ']' :: rest))
    rw [← List.cons_append, ← hcs] at hindent
    rw [hlines, hindent, readItems_item hitem (by omega) ⟨',', _, rfl, rfl⟩,
      skipLayout_closing (Or.inl rfl)]
    simp [ih (fuel - 1) rest (by omega)]

/-- An array is read from the texts of its elements. -/
theorem written_list {texts : List (List Char)} {data : List Datum}
    (h : List.Forall₂ (Written depth) texts data) :
    Written (depth + 1) (list texts) (.list data) := by
  -- every layout of an array is `[` and elements up to `]`
  have hopen : ∀ {body : List Char}, (∀ fuel rest, body.length ≤ fuel →
      readItems fuel depth (body ++ rest) = some (data, rest)) →
        Written (depth + 1) ('[' :: body) (.list data) := by
    intro body hbody
    refine ⟨⟨'[', body, rfl, by decide⟩, ?_⟩
    intro fuel rest hfuel hrest
    obtain ⟨fuel, rfl⟩ := Nat.exists_eq_succ_of_ne_zero (by simp at hfuel; omega : fuel ≠ 0)
    rw [List.length_cons] at hfuel
    rw [List.cons_append]
    simp [readValue, hbody fuel rest (by omega)]
  unfold list
  split
  case h_1 =>
    cases h
    refine hopen fun fuel rest hfuel => ?_
    obtain ⟨fuel, rfl⟩ := Nat.exists_eq_succ_of_ne_zero (by simp at hfuel; omega : fuel ≠ 0)
    rfl
  case h_2 item =>
    cases h with
    | cons hitem hnil =>
      cases hnil
      refine hopen fun fuel rest hfuel => ?_
      rw [List.length_append, List.length_singleton] at hfuel
      rw [List.append_assoc, List.singleton_append,
        readItems_item hitem (by omega) ⟨']', _, rfl, rfl⟩, skipLayout_closing (Or.inr rfl)]
      rfl
  case h_3 =>
    refine hopen fun fuel rest hfuel => ?_
    rw [List.length_append] at hfuel
    rw [List.append_assoc]
    exact readItems_itemLines h fuel rest (by simp at hfuel; omega)

end Lists

/-! ### Values -/

/-- Whether TOML has a value, nested at most `depth` arrays deep. -/
def Writable : (depth : ℕ) → Datum → Prop
  | _, .bool _ | _, .float _ | _, .text _ => True
  | _, .integer n => fits 64 n = true
  | depth + 1, .list items => ∀ item ∈ items, Writable depth item
  | _, _ => False

theorem values_eq_map (items : List Datum) : values items = items.map value := by
  induction items with
  | nil => rfl
  | cons item items ih => rw [values, ih, List.map_cons]

/-- The TOML of a value is read back as that value. -/
theorem written_value {depth : ℕ} {datum : Datum} (h : Writable depth datum) :
    Written depth (value datum) datum := by
  induction depth generalizing datum with
  | zero =>
    cases datum with
    | bool b => exact written_bool 0 b
    | integer n => exact written_integer 0 h
    | float x => exact written_float 0 x
    | text s => exact written_text 0 s
    | _ => exact h.elim
  | succ depth ih =>
    cases datum with
    | bool b => exact written_bool _ b
    | integer n => exact written_integer _ h
    | float x => exact written_float _ x
    | text s => exact written_text _ s
    | list items =>
      change Written (depth + 1) (list (values items)) (.list items)
      rw [values_eq_map]
      refine written_list ?_
      rw [List.forall₂_map_left_iff, List.forall₂_same]
      exact fun item hitem => ih (h item hitem)
    | _ => exact h.elim

end DesignTokens.Toml

import DesignTokens.Proofs.Number.Grammar
import DesignTokens.Toml.Printer
import DesignTokens.Toml.Scalar

/-!
# Written numbers are read back

A 64-bit integer and every double, NaN and `±∞` included, are read back from their own text
(`scalar?_integer`, `scalar?_float`).  Digits and dots with an optional sign are no other kind of
unquoted value, so that only `decimalDatum?` decides (`scalar?_signed`).
-/

namespace DesignTokens.Toml

open Number Decimal

/-! ### Runs of digits -/

theorem isGrouped_of_isDigit {c : Char} (h : c.isDigit = true) : isGrouped c = true := by
  simp [isGrouped, h]

theorem ne_of_isDigit {c d : Char} (hc : c.isDigit = true) (hd : d.isDigit = false) : c ≠ d := by
  rintro rfl
  rw [hc] at hd
  exact Bool.noConfusion hd

theorem ungroup_digits {cs : List Char} (hcs : AllDigits cs) (hne : cs ≠ []) :
    ungroup Char.isDigit cs = some cs := by
  fun_induction ungroup Char.isDigit cs with
  | case1 => exact absurd rfl hne
  | case2 c hc => rfl
  | case3 c hc => exact absurd (hcs c (by simp)) hc
  | case4 c cs hc ih => exact absurd rfl (ne_of_isDigit (hcs '_' (by simp)) (by decide))
  | case5 c cs hc => exact absurd rfl (ne_of_isDigit (hcs '_' (by simp)) (by decide))
  | case6 c cs hnil hunder hc ih =>
    rw [ih (fun d hd => hcs d (List.mem_cons_of_mem c hd)) (by simpa using hnil)]
    rfl
  | case7 c cs hnil hunder hc => exact absurd (hcs c (by simp)) hc

theorem wholeDigits?_numeral {cs : List Char} (hcs : IsNumeral cs) : wholeDigits? cs = some cs := by
  unfold wholeDigits?
  rw [ungroup_digits hcs.allDigits hcs.ne_nil]
  split
  case h_1 d ds heq =>
    obtain rfl := Option.some.inj heq
    exact absurd (hcs.head rfl) (by simp)
  case h_2 => rfl

theorem takeWhile_digits {cs : List Char} (hcs : AllDigits cs) (rest : List Char)
    (hrest : ∀ c ∈ rest.head?, isGrouped c = false) :
    (cs ++ rest).takeWhile isGrouped = cs ∧ (cs ++ rest).dropWhile isGrouped = rest :=
  Text.run_append (fun c hc => isGrouped_of_isDigit (hcs c hc)) rest hrest

/-! ### Decimal texts -/

/-- Digits alone are an integer. -/
theorem decimalDatum?_numeral (negative : Bool) {cs : List Char} (hcs : IsNumeral cs) :
    decimalDatum? negative cs = wholeDatum? (withSign negative (Nat.ofDigitChars 10 cs 0)) := by
  obtain ⟨htake, hdrop⟩ := takeWhile_digits hcs.allDigits [] (by simp)
  rw [List.append_nil] at htake hdrop
  unfold decimalDatum?
  rw [htake, hdrop, wholeDigits?_numeral hcs]

/-- Digits on both sides of a decimal point are a float, if it does not overflow. -/
theorem decimalDatum?_point (negative : Bool) {whole fraction : List Char}
    (hwhole : IsNumeral whole) (hfraction : AllDigits fraction) (hne : fraction ≠ [])
    (hfinite : (Decimal.ofDigits whole fraction 0).toFloat.isFinite = true) :
    decimalDatum? negative (whole ++ '.' :: fraction) =
      some (.float (negateIf negative (Decimal.ofDigits whole fraction 0).toFloat)) := by
  obtain ⟨htake, hdrop⟩ := takeWhile_digits hwhole.allDigits ('.' :: fraction) (by simp; decide)
  obtain ⟨htake', hdrop'⟩ := takeWhile_digits hfraction [] (by simp)
  rw [List.append_nil] at htake' hdrop'
  unfold decimalDatum?
  rw [htake, hdrop, wholeDigits?_numeral hwhole]
  simp [readFraction, htake', hdrop', ungroup_digits hfraction hne, exponent?, hfinite]

/-! ### Other kinds of unquoted values -/

/-- Digits and points, a digit first. -/
structure IsDecimalText (cs : List Char) : Prop where
  head : ∀ c ∈ cs.head?, c.isDigit = true
  ne_nil : cs ≠ []
  chars : ∀ c ∈ cs, c.isDigit = true ∨ c = '.'

theorem isDecimalText_numeral {cs : List Char} (hcs : IsNumeral cs) : IsDecimalText cs where
  head c hc := hcs.allDigits c (List.mem_of_mem_head? hc)
  ne_nil := hcs.ne_nil
  chars c hc := Or.inl (hcs.allDigits c hc)

theorem isDecimalText_point {whole fraction : List Char} (hwhole : IsNumeral whole)
    (hfraction : AllDigits fraction) : IsDecimalText (whole ++ '.' :: fraction) where
  head c hc := by
    rw [List.head?_append_of_ne_nil _ hwhole.ne_nil] at hc
    exact hwhole.allDigits c (List.mem_of_mem_head? hc)
  ne_nil := by simp
  chars c hc := by
    rcases List.mem_append.mp hc with h | h
    · exact Or.inl (hwhole.allDigits c h)
    · rcases List.mem_cons.mp h with rfl | h
      · exact Or.inr rfl
      · exact Or.inl (hfraction c h)

theorem IsDecimalText.ne {cs : List Char} (h : IsDecimalText cs) {c d : Char} (hc : c ∈ cs)
    (hd : d.isDigit = false ∧ d ≠ '.') : c ≠ d := by
  rcases h.chars c hc with hdigit | rfl
  · exact ne_of_isDigit hdigit hd.1
  · exact hd.2.symm

theorem expect_eq_none {c : Char} {cs : List Char} (h : c ∉ cs) : expect c cs = none := by
  cases cs with
  | nil => rfl
  | cons d cs =>
    have hne : d ≠ c := fun heq => h (heq ▸ List.mem_cons_self ..)
    simp [expect, hne]

theorem readDigits_bind_expect {count : ℕ} (hcount : count ≠ 0) {c : Char} {cs : List Char}
    (h : c ∉ cs.tail) : ∀ n rest, readDigits count cs = some (n, rest) → expect c rest = none := by
  intro n rest hread
  unfold readDigits at hread
  dsimp only at hread
  split at hread
  case isTrue =>
    obtain ⟨-, rfl⟩ := Prod.mk.inj (Option.some.inj hread)
    refine expect_eq_none fun hmem => h ?_
    obtain ⟨k, rfl⟩ := Nat.exists_eq_succ_of_ne_zero hcount
    cases cs with
    | nil => simp at hmem
    | cons d cs => exact List.mem_of_mem_drop hmem
  case isFalse => exact absurd hread (by simp)

/-- Without a dash or a colon behind its first character a text is no moment. -/
theorem isMoment_eq_false {cs : List Char} (hdash : '-' ∉ cs.tail) (hcolon : ':' ∉ cs.tail) :
    isMoment cs = false := by
  have hdate : readDate cs = none := by
    unfold readDate
    cases hread : readDigits 4 cs with
    | none => rfl
    | some result =>
      have hnone := readDigits_bind_expect (by norm_num) hdash result.1 result.2 hread
      simp [hnone]
  have htime : readTime cs = none := by
    unfold readTime readHourMinute
    cases hread : readDigits 2 cs with
    | none => rfl
    | some result =>
      have hnone := readDigits_bind_expect (by norm_num) hcolon result.1 result.2 hread
      simp [hnone]
  unfold isMoment
  rw [hdate, htime]
  rfl

/-- Without `x`, `o` or `b` behind its first character a text is in base 10. -/
theorem basedDatum?_eq_none {cs : List Char} (hx : 'x' ∉ cs.tail) (ho : 'o' ∉ cs.tail)
    (hb : 'b' ∉ cs.tail) : basedDatum? cs = none := by
  unfold basedDatum?
  split
  · exact absurd (List.mem_cons_self ..) hx
  · exact absurd (List.mem_cons_self ..) ho
  · exact absurd (List.mem_cons_self ..) hb
  · rfl

theorem spanSign_signed (negative : Bool) {cs : List Char} (hcs : IsDecimalText cs) :
    spanSign (signed negative cs) = (negative, cs) := by
  obtain ⟨sign, hsign, hsigned⟩ := exists_signed negative cs
  rw [hsigned]
  refine hsign.spanSign_append ?_
  intro c hc
  have hmem := List.mem_of_mem_head? hc
  exact ⟨hcs.ne hmem (by decide), hcs.ne hmem (by decide)⟩

/-- A decimal text with an optional sign is read as a decimal number. -/
theorem scalar?_signed (negative : Bool) {cs : List Char} (hcs : IsDecimalText cs) :
    scalar? (signed negative cs) = decimalDatum? negative cs := by
  have htail : ∀ {d : Char}, d.isDigit = false ∧ d ≠ '.' → d ∉ (signed negative cs).tail := by
    intro d hd hmem
    have hmem' : d ∈ cs := by
      cases negative with
      | true => exact hmem
      | false => exact List.mem_of_mem_tail hmem
    exact hcs.ne hmem' hd rfl
  have hhead : ∀ {d : Char} {ds : List Char}, d.isDigit = false → cs ≠ d :: ds := by
    rintro d ds hd rfl
    rw [hcs.head d rfl] at hd
    exact Bool.noConfusion hd
  have hword :
      ∀ {d : Char} {ds : List Char}, d.isDigit = false → d ≠ '-' →
        signed negative cs ≠ d :: ds := by
    intro d ds hd hdash h
    cases negative with
    | true => exact hdash (List.cons.inj h).1.symm
    | false => exact hhead hd h
  -- every other kind of value needs a character that is neither a digit nor a point
  unfold scalar?
  rw [if_neg (hword (by decide) (by decide)), if_neg (hword (by decide) (by decide)),
    isMoment_eq_false (htail (by decide)) (htail (by decide)), spanSign_signed negative hcs,
    basedDatum?_eq_none (htail (by decide)) (htail (by decide)) (htail (by decide))]
  have hspecial : special? negative cs = none := by
    unfold special?
    rw [if_neg (hhead (by decide)), if_neg (hhead (by decide))]
  simp [hspecial]

/-! ### Numbers -/

/-- A 64-bit integer is read back from its text. -/
theorem scalar?_integer {n : ℤ} (hn : fits 64 n = true) :
    scalar? (integer n) = some (.integer n) := by
  have hnumeral := isNumeral_toDigits n.natAbs
  unfold integer
  rw [scalar?_signed _ (isDecimalText_numeral hnumeral), decimalDatum?_numeral _ hnumeral,
    Nat.ofDigitChars_ten_toDigits]
  rw [withSign_natAbs, wholeDatum?, if_pos hn]

/-- Digits are laid out with a point between them. -/
theorem layout_splits {d : Decimal} (hd : d.IsNormal) :
    ∃ whole fraction,
      layout d = whole ++ '.' :: fraction ∧ fraction ≠ [] ∧ d.Splits whole fraction := by
  unfold layout
  split
  case isTrue he => exact splits_of_exponent_neg he
  case isFalse he =>
    exact ⟨d.positional, ['0'], rfl, by simp,
      (splits_of_exponent_nonneg hd (not_lt.mp he)).append_zero⟩

/-- A magnitude with a sign is read as the double that its decimal names. -/
theorem scalar?_layout (negative : Bool) {d : Decimal} (hd : d.IsNormal)
    (hfinite : d.toFloat.isFinite = true) :
    scalar? (signed negative (layout d)) = some (.float (negateIf negative d.toFloat)) := by
  obtain ⟨whole, fraction, htext, hne, hsplits⟩ := layout_splits hd
  have hread : (Decimal.ofDigits whole fraction 0).toFloat = d.toFloat :=
    toFloat_eq_of_number_eq hsplits.number_eq
  rw [htext, scalar?_signed negative (isDecimalText_point hsplits.isNumeral hsplits.allDigits),
    decimalDatum?_point negative hsplits.isNumeral hsplits.allDigits hne (by rwa [hread]), hread]

/-- Every double is read back from its text, NaN and `±∞` included. -/
theorem scalar?_float (x : Float) : scalar? (floatStyle.write x).toList = some (.float x) := by
  cases hx : x.isFinite with
  | true =>
    obtain ⟨negative, d, hd, hfinite, rfl, htext⟩ := floatStyle.exists_layout hx
    rw [htext]
    exact scalar?_layout negative hd hfinite
  | false =>
    have hnot : ∀ negative s e, shape x ≠ .finite negative s e := by
      intro negative s e hshape
      rw [(value_of_shape hshape).1] at hx
      cases hx
    unfold Style.write
    split
    case h_1 hshape =>
      have hx : x = 0.0 / 0.0 := shape_injective (hshape.trans (by decide))
      rw [hx]
      rfl
    case h_2 negative hshape =>
      have hx : x = negateIf negative (1.0 / 0.0) :=
        shape_injective (hshape.trans (by cases negative <;> decide))
      rw [hx, String.toList_ofList]
      cases negative <;> rfl
    case h_3 hshape => exact absurd hshape (hnot _ _ _)
    case h_4 hshape => exact absurd hshape (hnot _ _ _)

end DesignTokens.Toml

import DesignTokens.Json.Reader
import DesignTokens.Proofs.Json.Floats
import DesignTokens.Proofs.Number.Printed

/-!
# Written JSON numbers are read back

An integer of at most 64 bits and the magnitude of every finite double are read back from their own
text, whatever follows that cannot continue a number (`readNumber_integer`, `readNumber_layout`).  A
double has a decimal point or an exponent, which tells it from an integer.
-/

namespace DesignTokens.Json

open Number Decimal

variable {whole fraction rest : List Char}

/-- Characters that cannot continue a number. -/
def EndsNumber (rest : List Char) : Prop :=
  ∀ c ∈ rest.head?, isNumberChar c = false

theorem endsNumber_cons {c : Char} (h : isNumberChar c = false) (cs : List Char) :
    EndsNumber (c :: cs) := by
  intro d hd
  obtain rfl := Option.some.inj hd
  exact h

theorem EndsNumber.isDigit (h : EndsNumber rest) : ∀ c ∈ rest.head?, c.isDigit = false := by
  intro c hc
  rw [Bool.eq_false_iff]
  intro hdigit
  exact absurd (isNumberChar_of_isDigit hdigit) (by simp [h c hc])

/-- What follows a number does not begin with a character of a number. -/
theorem EndsNumber.ne_cons {c : Char} {cs : List Char} (h : EndsNumber (c :: cs)) {d : Char}
    (hd : isNumberChar d = true) : c ≠ d := by
  rintro rfl
  exact absurd hd (by simp [h c rfl])

/-! ### The parts of a number -/

theorem spanMinus_signed (negative : Bool) {cs : List Char} (h : BeginsWithDigit cs)
    (rest : List Char) : spanMinus (signed negative cs ++ rest) = (negative, cs ++ rest) := by
  obtain ⟨c, cs, rfl, hc⟩ := h
  cases negative with
  | true => rfl
  | false =>
    change spanMinus (c :: (cs ++ rest)) = (false, c :: (cs ++ rest))
    unfold spanMinus
    split
    case h_1 heq =>
      obtain ⟨rfl, -⟩ := List.cons.inj heq
      exact absurd hc (by decide)
    case h_2 => rfl

theorem spanWhole_numeral (h : IsNumeral whole) (hrest : ∀ c ∈ rest.head?, c.isDigit = false) :
    spanWhole (whole ++ rest) = some (whole, rest) := by
  unfold spanWhole
  split
  case h_1 cs heq =>
    -- a numeral that begins with `0` is `0`
    have hhead : whole.head? = some '0' := by
      rw [← List.head?_append_of_ne_nil whole h.ne_nil, heq, List.head?_cons]
    have hzero := h.head hhead
    rw [hzero, List.singleton_append] at heq
    rw [hzero, (List.cons.inj heq).2]
  case h_2 =>
    rw [spanDigits_append h.allDigits rest hrest]
    split
    case h_1 heq => exact absurd (Prod.mk.inj heq).1 h.ne_nil
    case h_2 heq =>
      obtain ⟨rfl, rfl⟩ := Prod.mk.inj heq
      rfl

theorem spanFractionPart_point (h : AllDigits fraction) (hne : fraction ≠ [])
    (hrest : ∀ c ∈ rest.head?, c.isDigit = false) :
    spanFractionPart ('.' :: (fraction ++ rest)) = some (fraction, rest) := by
  rw [spanFractionPart, spanDigits_append h rest hrest]
  split
  case h_1 heq => exact absurd (Prod.mk.inj heq).1 hne
  case h_2 heq =>
    obtain ⟨rfl, rfl⟩ := Prod.mk.inj heq
    rfl

theorem spanFractionPart_of_ne (h : ∀ cs, rest ≠ '.' :: cs) :
    spanFractionPart rest = some ([], rest) := by
  unfold spanFractionPart
  split
  case h_1 => exact absurd rfl (h _)
  case h_2 => rfl

theorem spanExponent_of_endsNumber (h : EndsNumber rest) :
    spanExponent rest = some (none, rest) := by
  unfold spanExponent
  split
  case h_1 => exact absurd rfl (h.ne_cons (by decide))
  case h_2 => exact absurd rfl (h.ne_cons (by decide))
  case h_3 => rfl

/-- An exponent is read with its sign. -/
theorem spanExponent_mark (n : ℤ) (h : EndsNumber rest) :
    spanExponent ('e' :: (if n < 0 then '-' else '+') :: (Nat.toDigits 10 n.natAbs ++ rest)) =
      some (some n, rest) := by
  have hsign : spanSign ((if n < 0 then '-' else '+') :: (Nat.toDigits 10 n.natAbs ++ rest)) =
      (decide (n < 0), Nat.toDigits 10 n.natAbs ++ rest) := by
    split_ifs with hn
    · rw [decide_eq_true hn]
      rfl
    · rw [decide_eq_false hn]
      rfl
  have hdigits :
      spanSignedDigits ((if n < 0 then '-' else '+') :: (Nat.toDigits 10 n.natAbs ++ rest)) =
      some (n, rest) := by
    unfold spanSignedDigits
    rw [hsign]
    dsimp only
    rw [spanDigits_append (allDigits_toDigits n.natAbs) rest h.isDigit]
    split
    case h_1 heq => exact absurd (Prod.mk.inj heq).1 Nat.toDigits_ne_nil
    case h_2 heq =>
      obtain ⟨rfl, rfl⟩ := Prod.mk.inj heq
      rw [Nat.ofDigitChars_ten_toDigits, withSign_natAbs]
  change (spanSignedDigits _).map _ = _
  rw [hdigits]
  rfl

/-- A number is read in parts. -/
theorem readNumber_of_parts {negative : Bool} {cs cs₁ cs₂ cs₃ : List Char} {exponent : Option ℤ}
    (hminus : spanMinus cs = (negative, cs₁)) (hwhole : spanWhole cs₁ = some (whole, cs₂))
    (hfraction : spanFractionPart cs₂ = some (fraction, cs₃))
    (hexponent : spanExponent cs₃ = some (exponent, rest)) :
    readNumber cs =
      if fraction.isEmpty && exponent.isNone then some (wholeDatum negative whole, rest)
      else
        some (floatDatum negative (Decimal.ofDigits whole fraction (exponent.getD 0)), rest) := by
  simp only [readNumber, hminus, hwhole, hfraction, hexponent, Option.bind_eq_bind,
    Option.bind_some]
  rfl

/-! ### Integers -/

/-- `-2 ^ 63 ≤ n < 2 ^ 64`: the integers that are not read as floats. -/
def isWhole (n : ℤ) : Bool :=
  -0x8000000000000000 ≤ n && n ≤ 0xffffffffffffffff

/-- An integer out of that range is read as a float. -/
theorem wholeDatum_toDigits (n : ℤ) :
    wholeDatum (decide (n < 0)) (Nat.toDigits 10 n.natAbs) =
      if isWhole n then .integer n else floatDatum (decide (n < 0)) ⟨n.natAbs, 0⟩ := by
  unfold wholeDatum
  dsimp only
  rw [Nat.ofDigitChars_ten_toDigits]
  simp only [isWhole, Bool.and_eq_true, decide_eq_true_eq]
  by_cases hn : n < 0
  · have hsign : -(n.natAbs : ℤ) = n := by omega
    have hrange : 0 < n.natAbs ∧ n.natAbs ≤ 0x8000000000000000 ↔
        -0x8000000000000000 ≤ n ∧ n ≤ 0xffffffffffffffff := by omega
    rw [if_pos hn, hsign, decide_eq_true hn]
    exact if_congr hrange rfl rfl
  · have hsign : (n.natAbs : ℤ) = n := by omega
    have hrange :
        n.natAbs ≤ 0xffffffffffffffff ↔ -0x8000000000000000 ≤ n ∧ n ≤ 0xffffffffffffffff := by omega
    rw [if_neg hn, hsign, decide_eq_false hn]
    exact if_congr hrange rfl rfl

theorem readNumber_integer (n : ℤ) (hrest : EndsNumber rest) :
    readNumber (integer n ++ rest) =
      some (if isWhole n then .integer n else floatDatum (decide (n < 0)) ⟨n.natAbs, 0⟩, rest) := by
  have hnumeral := isNumeral_toDigits n.natAbs
  have hminus := spanMinus_signed (decide (n < 0)) (beginsWithDigit_of_isNumeral hnumeral) rest
  have hpoint : ∀ cs, rest ≠ '.' :: cs := by
    rintro cs rfl
    exact hrest.ne_cons (by decide) rfl
  have hread := readNumber_of_parts hminus (spanWhole_numeral hnumeral hrest.isDigit)
    (spanFractionPart_of_ne hpoint)
    (spanExponent_of_endsNumber hrest)
  rw [wholeDatum_toDigits] at hread
  exact hread

/-! ### Doubles -/

theorem floatDatum_eq {d d' : Decimal} (negative : Bool) (h : d'.number = d.number)
    (hd : d.toFloat.isFinite = true) :
    floatDatum negative d' = .float (negateIf negative d.toFloat) := by
  unfold floatDatum
  rw [toFloat_eq_of_number_eq h]
  exact if_pos hd

/-- Digits with a point between them are read as the double that they name. -/
theorem readNumber_point (negative : Bool) {d : Decimal} (hsplits : d.Splits whole fraction)
    (hne : fraction ≠ []) (hd : d.toFloat.isFinite = true) (hrest : EndsNumber rest) :
    readNumber (signed negative (whole ++ '.' :: fraction) ++ rest) =
      some (.float (negateIf negative d.toFloat), rest) := by
  have hminus := spanMinus_signed negative
    ((beginsWithDigit_of_isNumeral hsplits.isNumeral).append ('.' :: fraction)) rest
  rw [List.append_assoc, List.cons_append] at hminus
  have hread := readNumber_of_parts hminus (spanWhole_numeral hsplits.isNumeral (by simp))
    (spanFractionPart_point hsplits.allDigits hne hrest.isDigit) (spanExponent_of_endsNumber hrest)
  rw [List.isEmpty_eq_false_iff.mpr hne] at hread
  rw [hread, if_neg (by simp)]
  exact congrArg (fun datum => some (datum, rest)) (floatDatum_eq negative hsplits.number_eq hd)

/-- The first digit, the other digits behind a point and the exponent of the first digit name the
number of a decimal. -/
theorem number_ofDigits_magnitude {d : Decimal} {first : Char} {others : List Char}
    (h : d.digits = first :: others) :
    (Decimal.ofDigits [first] others d.magnitude).number = d.number := by
  have hvalue : Nat.ofDigitChars 10 ([first] ++ others) 0 = d.coefficient := by
    rw [List.singleton_append, ← h, digits, Nat.ofDigitChars_ten_toDigits]
  have hexponent : d.magnitude - others.length = d.exponent := by
    rw [magnitude, h, List.length_cons]
    push_cast
    ring
  rw [Decimal.ofDigits, hvalue, hexponent]

theorem isNumeral_singleton {c : Char} (h : c.isDigit = true) : IsNumeral [c] where
  allDigits := by simpa [AllDigits] using h
  ne_nil := List.cons_ne_nil c []
  head := by simp

/-- Digits with an exponent are read as the double that they name. -/
theorem readNumber_scientific (negative : Bool) {d : Decimal} (hd : d.toFloat.isFinite = true)
    (hrest : EndsNumber rest) :
    readNumber (signed negative d.scientific ++ rest) =
      some (.float (negateIf negative d.toFloat), rest) := by
  obtain ⟨first, others, hdigits⟩ :=
    List.exists_cons_of_ne_nil (isNumeral_toDigits d.coefficient).ne_nil
  change d.digits = first :: others at hdigits
  have hall : AllDigits (first :: others) := hdigits ▸ allDigits_toDigits d.coefficient
  have hminus := spanMinus_signed negative (beginsWithDigit_scientific d) rest
  have hexponent := spanExponent_mark d.magnitude hrest
  set mark := 'e' :: (if d.magnitude < 0 then '-' else '+') ::
    (Nat.toDigits 10 d.magnitude.natAbs ++ rest) with hmark
  -- the other digits stand behind a point if there are any
  obtain ⟨behind, htext, hhead, hfraction⟩ : ∃ behind, d.scientific ++ rest = [first] ++ behind ∧
      (∀ c ∈ behind.head?, c.isDigit = false) ∧ spanFractionPart behind = some (others, mark) := by
    unfold scientific
    rw [hdigits]
    cases others with
    | nil => exact ⟨mark, by simp [hmark], by simp [hmark],
      spanFractionPart_of_ne (by simp [hmark])⟩
    | cons second others =>
      refine ⟨'.' :: (second :: others ++ mark), by simp [hmark], by simp, ?_⟩
      exact spanFractionPart_point (fun c hc => hall c (List.mem_cons_of_mem _ hc)) (by simp)
        (by simp [hmark])
  rw [htext] at hminus
  have hwhole := spanWhole_numeral (isNumeral_singleton (hall first List.mem_cons_self)) hhead
  rw [readNumber_of_parts hminus hwhole hfraction hexponent, if_neg (by simp), Option.getD_some]
  exact congrArg (fun datum => some (datum, rest))
    (floatDatum_eq negative (number_ofDigits_magnitude hdigits) hd)

/-- A magnitude with a sign is read as the double that its decimal names. -/
theorem readNumber_layout (negative : Bool) {d : Decimal} (hnormal : d.IsNormal)
    (hd : d.toFloat.isFinite = true) (hrest : EndsNumber rest) :
    readNumber (signed negative (layout d) ++ rest) =
      some (.float (negateIf negative d.toFloat), rest) := by
  unfold layout
  split_ifs with hpositional hexponent
  · obtain ⟨whole, fraction, htext, hne, hsplits⟩ := splits_of_exponent_neg hexponent
    rw [htext]
    exact readNumber_point negative hsplits hne hd hrest
  · have hsplits := (splits_of_exponent_nonneg hnormal (not_lt.mp hexponent)).append_zero
    exact readNumber_point negative hsplits (by simp) hd hrest
  · exact readNumber_scientific negative hd hrest

end DesignTokens.Json

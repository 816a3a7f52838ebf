import DesignTokens.Number.Literal
import DesignTokens.Proofs.Number.Text
import DesignTokens.Proofs.Text.Lines

/-!
# Printed numbers

A double with a fixed number of places is written as the decimal nearest to its exact value on that
grid, ties to even (`fixed_of_isFinite`); `ShowsUnits` says of a text that it is such a decimal, and
that it has a sign only in front of what is less than zero.  A number in running text or with fixed
places is one word: no blank, bracket, colon or line break stands in it
(`isNumberChar_of_mem_plain`, `isNumberChar_of_mem_fixed`).
-/

namespace DesignTokens.Number

open Decimal

/-! ### Fixed places -/

theorem roundsUp_even_iff (q r d : ℕ) :
    Tie.even.roundsUp q r d = true ↔ d < 2 * r ∨ 2 * r = d ∧ q % 2 = 1 := by
  unfold Tie.roundsUp
  rcases lt_trichotomy (2 * r) d with h | h | h
  · rw [compare_lt_iff_lt.mpr h]
    simp
    omega
  · rw [compare_eq_iff_eq.mpr h]
    simp [h]
  · rw [compare_gt_iff_gt.mpr h]
    simp [h]

theorem roundDiv_even_eq_nearestEven (n : ℕ) {d : ℕ} (hd : 0 < d) :
    (roundDiv .even n d : ℤ) = nearestEven ((n : ℚ) / d) := by
  have hd' : (0 : ℚ) < d := by exact_mod_cast hd
  have hfloor : ⌊(n : ℚ) / d⌋ = ((n / d : ℕ) : ℤ) := Rat.floor_natCast_div_natCast n d
  have hfract : Int.fract ((n : ℚ) / d) = ((n % d : ℕ) : ℚ) / d :=
    Int.fract_div_natCast_eq_div_natCast_mod
  have hbelow : ((n % d : ℕ) : ℚ) / d < 1 / 2 ↔ 2 * (n % d) < d := by
    rw [div_lt_div_iff₀ hd' (by norm_num), one_mul, mul_comm]
    exact_mod_cast Iff.rfl
  have habove : 1 / 2 < ((n % d : ℕ) : ℚ) / d ↔ d < 2 * (n % d) := by
    rw [div_lt_div_iff₀ (by norm_num) hd', one_mul, mul_comm]
    exact_mod_cast Iff.rfl
  unfold nearestEven roundDiv
  simp only [hfloor, hfract, hbelow, habove, roundsUp_even_iff]
  split_ifs <;> omega

/-- The exact value of a double over a power of two. -/
theorem numerator_div_denominator (s : ℕ) (e : ℤ) :
    (numerator s e : ℚ) / denominator e = s * 2 ^ e := by
  change ((s * 2 ^ e.toNat : ℕ) : ℚ) / (2 ^ (-e).toNat : ℕ) = s * 2 ^ e
  rw [Nat.cast_mul, Nat.cast_pow, Nat.cast_pow, Nat.cast_two, ← zpow_natCast, ← zpow_natCast,
    mul_div_assoc, ← zpow_sub₀ (by norm_num)]
  congr 2
  omega

/-- With at least one place the digits are laid out as those of a decimal. -/
theorem withPlaces_eq_positional {places : ℕ} (hplaces : places ≠ 0) (n : ℕ) :
    withPlaces places n = positional ⟨n, -(places : ℤ)⟩ := by
  have htoNat : (- -(places : ℤ)).toNat = places := by omega
  unfold withPlaces positional digits
  dsimp only
  rw [htoNat, if_neg hplaces, if_neg hplaces]
  by_cases hlt : places < (Nat.toDigits 10 n).length
  · have hzeros : places + 1 - (Nat.toDigits 10 n).length = 0 := by omega
    rw [if_pos hlt, hzeros, List.replicate_zero, List.nil_append]
  · have hzeros :
        places + 1 - (Nat.toDigits 10 n).length = places - (Nat.toDigits 10 n).length + 1 := by
      omega
    have hcut :
        (List.replicate (places - (Nat.toDigits 10 n).length + 1) '0' ++ Nat.toDigits 10 n).length -
          places = 1 := by
      rw [List.length_append, List.length_replicate]
      omega
    rw [if_neg hlt, hzeros, hcut]
    rfl

/-- A finite double with fixed places is a sign and the nearest decimal with that many places. -/
theorem fixed_of_isFinite {places : ℕ} (hplaces : places ≠ 0) {x : Float} (hx : x.isFinite = true) :
    ∃ negative, ∃ n : ℕ,
      withSign negative n = nearestEven (value x * 10 ^ places) ∧ (0 < value x → negative = false) ∧
      fixed places x = String.ofList (signed negative (positional ⟨n, -(places : ℤ)⟩)) := by
  obtain ⟨negative, s, e, hshape⟩ := exists_shape hx
  have hdenominator : 0 < denominator e := Nat.pow_pos (by norm_num)
  have hunits : (roundDiv .even (numerator s e * 10 ^ places) (denominator e) : ℤ) =
      nearestEven (s * 2 ^ e * 10 ^ places) := by
    rw [roundDiv_even_eq_nearestEven _ hdenominator, Nat.cast_mul, Nat.cast_pow, Nat.cast_ofNat,
      mul_div_right_comm, numerator_div_denominator]
  refine ⟨negative, roundDiv .even (numerator s e * 10 ^ places) (denominator e), ?_, ?_, ?_⟩
  · rw [(value_of_shape hshape).2, withSign, hunits]
    cases negative with
    | false => rfl
    | true =>
      show -nearestEven (s * 2 ^ e * 10 ^ places) = nearestEven (-(s * 2 ^ e) * 10 ^ places)
      rw [neg_mul, nearestEven_neg]
  · intro hpos
    rw [(value_of_shape hshape).2] at hpos
    cases negative with
    | false => rfl
    | true =>
      have hnonneg : (0 : ℚ) ≤ s * 2 ^ e := by positivity
      exact absurd hpos (not_lt.mpr (neg_nonpos.mpr hnonneg))
  · unfold fixed
    rw [hshape]
    dsimp only
    rw [withPlaces_eq_positional hplaces]
    rfl

/-- A positive double has no sign in front. -/
theorem fixed_of_pos {places : ℕ} (hplaces : places ≠ 0) {x : Float} (hx : x.isFinite = true)
    (hpos : 0 < value x) :
    ∃ n : ℕ, (n : ℤ) = nearestEven (value x * 10 ^ places) ∧
      fixed places x = String.ofList (positional ⟨n, -(places : ℤ)⟩) := by
  obtain ⟨negative, n, hn, hsign, htext⟩ := fixed_of_isFinite hplaces hx
  obtain rfl := hsign hpos
  exact ⟨n, hn, htext⟩

/-- The text of `k · 10 ^ -places`: a numeral, a decimal point and `places` digits, with a `-`
exactly if `k < 0`. -/
def ShowsUnits (places : ℕ) (text : String) (k : ℤ) : Prop :=
  ∃ whole fraction,
    text.toList = signed (k < 0) (whole ++ '.' :: fraction) ∧ IsNumeral whole ∧ AllDigits fraction ∧
    fraction.length = places ∧ Nat.ofDigitChars 10 (whole ++ fraction) 0 = k.natAbs

theorem showsUnits_positional {places : ℕ} (hplaces : places ≠ 0) (k : ℤ) :
    ShowsUnits places
      (String.ofList (signed (k < 0) (positional ⟨k.natAbs, -(places : ℤ)⟩))) k := by
  obtain ⟨whole, fraction, htext, hlength, hsplits⟩ :=
    exists_splits_of_exponent_neg (d := ⟨k.natAbs, -(places : ℤ)⟩)
      (by show -(places : ℤ) < 0; omega)
  have hplaces' : fraction.length = places := by
    rw [hlength]
    show (- -(places : ℤ)).toNat = places
    omega
  refine ⟨whole, fraction, ?_, hsplits.isNumeral, hsplits.allDigits, hplaces', ?_⟩
  · rw [String.toList_ofList, htext]
  · -- both sides are integers in the same unit
    have hnumber := hsplits.number_eq
    rw [number_ofDigits, hplaces', number] at hnumber
    exact_mod_cast mul_right_cancel₀ (zpow_ne_zero _ (by norm_num)) hnumber

/-- What is not rounded to zero is shown with its own sign. -/
theorem showsUnits_fixed {places : ℕ} (hplaces : places ≠ 0) {x : Float} (hx : x.isFinite = true)
    (h : nearestEven (value x * 10 ^ places) ≠ 0) :
    ShowsUnits places (fixed places x) (nearestEven (value x * 10 ^ places)) := by
  obtain ⟨negative, n, hn, -, htext⟩ := fixed_of_isFinite hplaces hx
  have hsign : decide (nearestEven (value x * 10 ^ places) < 0) = negative ∧
      (nearestEven (value x * 10 ^ places)).natAbs = n := by
    rw [← hn] at h ⊢
    cases negative with
    | false =>
      show decide ((n : ℤ) < 0) = false ∧ (n : ℤ).natAbs = n
      exact ⟨decide_eq_false (by omega), by omega⟩
    | true =>
      change -(n : ℤ) ≠ 0 at h
      show decide (-(n : ℤ) < 0) = true ∧ (-(n : ℤ)).natAbs = n
      exact ⟨decide_eq_true (by omega), by omega⟩
  have hshows := showsUnits_positional hplaces (nearestEven (value x * 10 ^ places))
  rwa [hsign.1, hsign.2, ← htext] at hshows

theorem showsUnits_zero : ShowsUnits 2 "0.00" 0 :=
  ⟨['0'], ['0', '0'], by decide, isNumeral_toDigits 0, allDigits_zeros 2, rfl, rfl⟩

/-- A numeral begins with a digit, and so with no sign. -/
theorem head?_append_ne_minus {ds : List Char} (h : IsNumeral ds) (rest : List Char) :
    (ds ++ rest).head? ≠ some '-' := by
  intro hminus
  obtain ⟨c, cs, rfl⟩ := List.exists_cons_of_ne_nil h.ne_nil
  obtain rfl : c = '-' := Option.some.inj hminus
  exact absurd (h.allDigits '-' (List.mem_cons_self ..)) (by decide)

/-- A text shows one number of units only. -/
theorem ShowsUnits.unique {places : ℕ} {text : String} {k k' : ℤ} (h : ShowsUnits places text k)
    (h' : ShowsUnits places text k') : k = k' := by
  obtain ⟨whole, fraction, htext, hwhole, -, hlength, hunits⟩ := h
  obtain ⟨whole', fraction', htext', hwhole', -, hlength', hunits'⟩ := h'
  rw [htext] at htext'
  -- a sign in front of one text is in front of the other
  have hsame :
      decide (k < 0) = decide (k' < 0) ∧ whole ++ '.' :: fraction = whole' ++ '.' :: fraction' := by
    cases hk : decide (k < 0) <;> cases hk' : decide (k' < 0) <;> rw [hk, hk'] at htext'
    · exact ⟨rfl, htext'⟩
    · exact absurd (congrArg List.head? htext') (head?_append_ne_minus hwhole _)
    · exact absurd (congrArg List.head? htext').symm (head?_append_ne_minus hwhole' _)
    · exact ⟨rfl, (List.cons.inj htext').2⟩
  obtain ⟨rfl, htail⟩ := List.append_inj' hsame.2 (by simp [hlength, hlength'])
  obtain rfl := (List.cons.inj htail).2
  have hsign : k < 0 ↔ k' < 0 := by simpa using hsame.1
  omega

/-- `-0.00` is not the text of any number of units. -/
theorem ShowsUnits.ne_negative_zero {text : String} {k : ℤ} (h : ShowsUnits 2 text k) :
    text ≠ "-0.00" := by
  rintro rfl
  obtain ⟨whole, fraction, htext, hwhole, -, hlength, hunits⟩ := h
  by_cases hk : k < 0
  · rw [decide_eq_true hk] at htext
    have hsplit : ['0'] ++ ['.', '0', '0'] = whole ++ '.' :: fraction := (List.cons.inj htext).2
    obtain ⟨rfl, htail⟩ := List.append_inj' hsplit (by simp [hlength])
    obtain rfl := (List.cons.inj htail).2
    have hzero : k.natAbs = 0 := hunits.symm
    omega
  · rw [decide_eq_false hk] at htext
    exact absurd (congrArg List.head? htext).symm (head?_append_ne_minus hwhole _)

/-! ### Reading digits -/

theorem spanDigits_append {ds : List Char} (hds : AllDigits ds) (rest : List Char)
    (hrest : ∀ c ∈ rest.head?, c.isDigit = false) : spanDigits (ds ++ rest) = (ds, rest) := by
  obtain ⟨htake, hdrop⟩ := Text.run_append hds rest hrest
  rw [spanDigits, htake, hdrop]

/-! ### The characters of a number -/

/-- A sign is the one character that is put in front. -/
theorem forall_mem_signed {p : Char → Bool} {negative : Bool} {cs : List Char}
    (hminus : p '-' = true) (h : ∀ c ∈ cs, p c = true) : ∀ c ∈ signed negative cs, p c = true := by
  cases negative with
  | false => exact h
  | true => exact List.forall_mem_cons.mpr ⟨hminus, h⟩

/-- Whether a character belongs to numbers: a letter or a digit, the point, the sign. -/
def isNumberChar (c : Char) : Bool :=
  c.isAlphanum || c == '.' || c == '-'

theorem isNumberChar_of_isDigit {c : Char} (h : c.isDigit = true) : isNumberChar c = true := by
  simp [isNumberChar, Char.isAlphanum, h]

theorem isNumberChar_of_mem_signed {negative : Bool} {cs : List Char}
    (h : ∀ c ∈ cs, isNumberChar c = true) : ∀ c ∈ signed negative cs, isNumberChar c = true :=
  forall_mem_signed rfl h

theorem isNumberChar_of_mem_positional (d : Decimal) :
    ∀ c ∈ d.positional, isNumberChar c = true := by
  have hdigits : ∀ c ∈ d.digits, isNumberChar c = true := fun c hc =>
    isNumberChar_of_isDigit (allDigits_toDigits d.coefficient c hc)
  have hzeros : ∀ k, ∀ c ∈ List.replicate k '0', isNumberChar c = true := fun k c hc =>
    isNumberChar_of_isDigit (allDigits_zeros k c hc)
  intro c hc
  unfold positional at hc
  dsimp only at hc
  split_ifs at hc
  · rcases List.mem_append.mp hc with hc | hc
    · exact hdigits c hc
    · exact hzeros _ c hc
  · rcases List.mem_append.mp hc with hc | hc
    · exact hdigits c (List.mem_of_mem_take hc)
    · rcases List.mem_cons.mp hc with rfl | hc
      · decide
      · exact hdigits c (List.mem_of_mem_drop hc)
  · simp only [List.mem_cons, List.mem_append] at hc
    rcases hc with rfl | rfl | hc | hc
    · decide
    · decide
    · exact hzeros _ c hc
    · exact hdigits c hc

theorem toList_toString_int (n : ℤ) :
    (toString n).toList = signed (decide (n < 0)) (Nat.toDigits 10 n.natAbs) := by
  cases n with
  | ofNat n =>
    rw [decide_eq_false (by simp)]
    change n.repr.toList = Nat.toDigits 10 n
    rw [Nat.repr_eq_ofList_toDigits, String.toList_ofList]
  | negSucc n =>
    rw [decide_eq_true (Int.negSucc_lt_zero n)]
    change ("-" ++ (n + 1).repr).toList = '-' :: Nat.toDigits 10 (n + 1)
    simp [Nat.repr_eq_ofList_toDigits]

theorem isNumberChar_of_mem_toString (n : ℤ) :
    ∀ c ∈ (toString n).toList, isNumberChar c = true := by
  rw [toList_toString_int]
  refine isNumberChar_of_mem_signed fun c hc => ?_
  exact isNumberChar_of_isDigit (allDigits_toDigits n.natAbs c hc)

theorem isNumberChar_of_mem_plain (x : Float) : ∀ c ∈ (plain x).toList, isNumberChar c = true := by
  unfold plain Style.write
  split
  case h_1 => exact List.all_eq_true.mp (by decide)
  case h_2 negative _ =>
    rw [String.toList_ofList]
    exact isNumberChar_of_mem_signed (List.all_eq_true.mp (by decide))
  case h_3 negative _ _ =>
    rw [String.toList_ofList]
    dsimp only [plainStyle]
    exact isNumberChar_of_mem_signed (isNumberChar_of_mem_positional _)
  case h_4 negative _ _ _ _ =>
    rw [String.toList_ofList]
    dsimp only [plainStyle]
    exact isNumberChar_of_mem_signed (isNumberChar_of_mem_positional _)

theorem isNumberChar_of_mem_fixed {places : ℕ} (hplaces : places ≠ 0) (x : Float) :
    ∀ c ∈ (fixed places x).toList, isNumberChar c = true := by
  unfold fixed
  split
  case h_1 => exact List.all_eq_true.mp (by decide)
  case h_2 negative _ =>
    rw [String.toList_ofList]
    exact isNumberChar_of_mem_signed (List.all_eq_true.mp (by decide))
  case h_3 negative _ _ _ =>
    rw [String.toList_ofList, withPlaces_eq_positional hplaces]
    exact isNumberChar_of_mem_signed (isNumberChar_of_mem_positional _)

end DesignTokens.Number

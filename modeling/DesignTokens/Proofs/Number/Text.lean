import DesignTokens.Number.Literal
import DesignTokens.Number.Text
import DesignTokens.Proofs.Number.Decimal

/-!
# Decimal text

The digits of a decimal, its point and the zeros put in name the number of the decimal again, and
the part before the point is a numeral: it has no superfluous zero in front
(`splits_of_exponent_nonneg`, `splits_of_exponent_neg`).  In every style a finite double is a
decimal that names it, laid out behind its sign (`Style.exists_layout`).
-/

namespace DesignTokens.Decimal

/-! ### Digits -/

/-- Characters that are all decimal digits. -/
def AllDigits (cs : List Char) : Prop :=
  ∀ c ∈ cs, c.isDigit = true

/-- The digits of an integer: at least one, without a leading zero. -/
structure IsNumeral (cs : List Char) : Prop where
  allDigits : AllDigits cs
  ne_nil : cs ≠ []
  head : cs.head? = some '0' → cs = ['0']

theorem allDigits_toDigits (n : ℕ) : AllDigits (Nat.toDigits 10 n) :=
  fun _ hc => Nat.isDigit_of_mem_toDigits (by norm_num) (by norm_num) hc

theorem allDigits_append {cs ds : List Char} :
    AllDigits (cs ++ ds) ↔ AllDigits cs ∧ AllDigits ds := by
  simp only [AllDigits, List.mem_append, or_imp, forall_and]

theorem allDigits_zeros (k : ℕ) : AllDigits (List.replicate k '0') := by
  intro c hc
  rw [List.eq_of_mem_replicate hc]
  rfl

/-- A number other than zero has no zero in front. -/
theorem head?_toDigits {n : ℕ} (hn : n ≠ 0) : (Nat.toDigits 10 n).head? ≠ some '0' := by
  induction n using Nat.strongRecOn with
  | ind n ih =>
    rw [Nat.toDigits_eq_if (by norm_num)]
    split
    case isTrue hlt =>
      rw [List.head?_cons, ne_eq, Option.some.injEq, Nat.digitChar_eq_zero]
      exact hn
    case isFalse hge =>
      rw [List.head?_append_of_ne_nil _ Nat.toDigits_ne_nil]
      exact ih (n / 10) (by omega) (by omega)

theorem isNumeral_toDigits (n : ℕ) : IsNumeral (Nat.toDigits 10 n) where
  allDigits := allDigits_toDigits n
  ne_nil := Nat.toDigits_ne_nil
  head h := by
    by_cases hn : n = 0
    · rw [hn]
      rfl
    · exact absurd h (head?_toDigits hn)

theorem ofDigitChars_zeros (k init : ℕ) :
    Nat.ofDigitChars 10 (List.replicate k '0') init = init * 10 ^ k := by
  induction k generalizing init with
  | zero => simp
  | succ k ih =>
    rw [List.replicate_succ, Nat.ofDigitChars_cons, ih, pow_succ]
    simp
    ring

/-! ### The point -/

/-- A numeral and digits behind a point that together name the number of a decimal. -/
structure Splits (d : Decimal) (whole fraction : List Char) : Prop where
  isNumeral : IsNumeral whole
  allDigits : AllDigits fraction
  number_eq : (ofDigits whole fraction 0).number = d.number

theorem number_ofDigits (whole fraction : List Char) :
    (ofDigits whole fraction 0).number =
      Nat.ofDigitChars 10 (whole ++ fraction) 0 * 10 ^ (-(fraction.length : ℤ)) := by
  rw [number, ofDigits, zero_sub]

/-- A zero may be added behind the point. -/
theorem Splits.append_zero {d : Decimal} {whole fraction : List Char}
    (h : Splits d whole fraction) : Splits d whole (fraction ++ ['0']) where
  isNumeral := h.isNumeral
  allDigits := allDigits_append.mpr ⟨h.allDigits, allDigits_zeros 1⟩
  number_eq := by
    rw [← h.number_eq, number_ofDigits, number_ofDigits, ← List.append_assoc,
      Nat.ofDigitChars_append]
    have hzero := ofDigitChars_zeros 1 (Nat.ofDigitChars 10 (whole ++ fraction) 0)
    rw [List.replicate_one, pow_one] at hzero
    rw [hzero, List.length_append, Nat.cast_mul, Nat.cast_add, List.length_singleton, neg_add,
      zpow_add₀ (by norm_num)]
    norm_num
    ring

/-- With `0 ≤ exponent` the decimal is its digits and zeros. -/
theorem splits_of_exponent_nonneg {d : Decimal} (hd : d.IsNormal) (he : 0 ≤ d.exponent) :
    Splits d d.positional [] := by
  have hplaces : (-d.exponent).toNat = 0 := by omega
  have htext : d.positional = d.digits ++ List.replicate d.exponent.toNat '0' := by
    unfold positional
    dsimp only
    rw [if_pos hplaces]
  have hnumeral : IsNumeral d.digits := isNumeral_toDigits d.coefficient
  refine ⟨⟨?_, ?_, ?_⟩, by simp [AllDigits], ?_⟩
  · rw [htext]
    exact allDigits_append.mpr ⟨hnumeral.allDigits, allDigits_zeros _⟩
  · rw [htext]
    exact List.append_ne_nil_of_left_ne_nil hnumeral.ne_nil _
  · intro hhead
    rw [htext, List.head?_append_of_ne_nil _ hnumeral.ne_nil] at hhead
    rcases hd with rfl | hd
    · rfl
    · exact absurd hhead (head?_toDigits fun h0 => hd (by rw [h0]))
  · rw [number_ofDigits, htext, List.append_nil, Nat.ofDigitChars_append, digits,
      Nat.ofDigitChars_ten_toDigits, ofDigitChars_zeros, number, List.length_nil, Nat.cast_zero,
      neg_zero, zpow_zero, mul_one, Nat.cast_mul, Nat.cast_pow, Nat.cast_ofNat, ← zpow_natCast,
      Int.toNat_of_nonneg he]

/-- Otherwise the point stands between the digits, or in front of them behind a zero, and the
exponent tells how many places are behind it. -/
theorem exists_splits_of_exponent_neg {d : Decimal} (he : d.exponent < 0) :
    ∃ whole fraction,
      d.positional = whole ++ '.' :: fraction ∧ fraction.length = (-d.exponent).toNat ∧
      Splits d whole fraction := by
  have hplaces : (-d.exponent).toNat ≠ 0 := by omega
  have hnumeral : IsNumeral d.digits := isNumeral_toDigits d.coefficient
  by_cases hlt : (-d.exponent).toNat < d.digits.length
  · -- some digits stand in front of the point
    set cut := d.digits.length - (-d.exponent).toNat with hcut
    have htext : d.positional = d.digits.take cut ++ '.' :: d.digits.drop cut := by
      unfold positional
      dsimp only
      rw [if_neg hplaces, if_pos hlt]
    have hlength : (d.digits.drop cut).length = (-d.exponent).toNat := by
      rw [List.length_drop]
      omega
    have hhead : (d.digits.take cut).head? = d.digits.head? :=
      List.head?_take.trans (if_neg (by omega))
    refine ⟨_, _, htext, hlength, ⟨?_, ?_, ?_⟩, ?_, ?_⟩
    · exact fun c hc => hnumeral.allDigits c (List.mem_of_mem_take hc)
    · exact List.ne_nil_of_length_pos (by rw [List.length_take]; omega)
    · intro h0
      rw [hhead] at h0
      have hone := congrArg List.length (hnumeral.head h0)
      change d.digits.length = 1 at hone
      omega
    · exact fun c hc => hnumeral.allDigits c (List.mem_of_mem_drop hc)
    · rw [number_ofDigits, List.take_append_drop, hlength, digits,
        Nat.ofDigitChars_ten_toDigits, number]
      congr 2
      omega
  · -- all digits stand behind the point, and zeros between the point and them
    set zeros := (-d.exponent).toNat - d.digits.length with hzeros
    have htext : d.positional = ['0'] ++ '.' :: (List.replicate zeros '0' ++ d.digits) := by
      unfold positional
      dsimp only
      rw [if_neg hplaces, if_neg hlt]
      rfl
    have hlength : (List.replicate zeros '0' ++ d.digits).length = (-d.exponent).toNat := by
      rw [List.length_append, List.length_replicate]
      omega
    refine ⟨_, _, htext, hlength, isNumeral_toDigits 0, ?_, ?_⟩
    · exact allDigits_append.mpr ⟨allDigits_zeros _, hnumeral.allDigits⟩
    · have hvalue :
          Nat.ofDigitChars 10 (['0'] ++ (List.replicate zeros '0' ++ d.digits)) 0 =
            d.coefficient := by
        rw [Nat.ofDigitChars_append, Nat.ofDigitChars_append, ← List.replicate_one,
          ofDigitChars_zeros, ofDigitChars_zeros, zero_mul, zero_mul, digits,
          Nat.ofDigitChars_ten_toDigits]
      rw [number_ofDigits, hvalue, hlength, number]
      congr 2
      omega

theorem splits_of_exponent_neg {d : Decimal} (he : d.exponent < 0) :
    ∃ whole fraction,
      d.positional = whole ++ '.' :: fraction ∧ fraction ≠ [] ∧ Splits d whole fraction := by
  obtain ⟨whole, fraction, htext, hlength, hsplits⟩ := exists_splits_of_exponent_neg he
  exact ⟨whole, fraction, htext, List.ne_nil_of_length_pos (by omega), hsplits⟩

end DesignTokens.Decimal

/-! ### Signs -/

namespace DesignTokens.Number

theorem withSign_natAbs (n : ℤ) : withSign (decide (n < 0)) n.natAbs = n := by
  unfold withSign
  by_cases h : n < 0
  · rw [decide_eq_true h, if_pos rfl]
    omega
  · rw [decide_eq_false h, if_neg Bool.false_ne_true]
    omega

theorem negateIf_ofDyadic {x : Float} {negative : Bool} {s : ℕ} {e : ℤ}
    (h : shape x = .finite negative s e) (hs : 0 < s) :
    negateIf negative (ofDyadic false s e) = x := by
  have hu := unpack_ofDyadic h hs
  refine shape_injective ?_
  rw [h]
  cases negative with
  | false => exact shape_ofDyadic h hs
  | true =>
    change shape (-ofDyadic false s e) = .finite true s e
    unfold shape
    rw [unpack_neg, hu]
    rfl

theorem isFinite_negateIf (negative : Bool) {x : Float} (h : x.isFinite = true) :
    (negateIf negative x).isFinite = true := by
  cases negative with
  | false => exact h
  | true => exact (value_neg h).1

/-- A finite double is written as a decimal that names it, behind its sign. -/
theorem Style.exists_layout (style : Style) {x : Float} (hx : x.isFinite = true) :
    ∃ negative d, d.IsNormal ∧ d.toFloat.isFinite = true ∧ negateIf negative d.toFloat = x ∧
      (style.write x).toList = signed negative (style.layout d) := by
  obtain ⟨_, _, _, hfinite⟩ := exists_shape hx
  unfold Style.write
  split
  case h_1 hnan =>
    rw [hfinite] at hnan
    cases hnan
  case h_2 hinfinite =>
    rw [hfinite] at hinfinite
    cases hinfinite
  case h_3 negative e hshape =>
    have he : e = 0 :=
      ((unpack_of_shape hshape).resolve_right fun ⟨hs, _⟩ => absurd hs (lt_irrefl 0)).2.1
    subst he
    refine ⟨negative, ⟨0, 0⟩, Or.inl rfl, by decide, ?_, String.toList_ofList⟩
    exact shape_injective (Eq.trans (by cases negative <;> decide) hshape.symm)
  case h_4 negative s e hs hshape =>
    have hpos : 0 < s := Nat.pos_of_ne_zero hs
    -- the digits are those of the magnitude, and the sign is put in front
    have hmagnitude := shape_ofDyadic hshape hpos
    have hread := Decimal.toFloat_shortest style.tie hmagnitude hpos
    refine ⟨negative, _, Decimal.isNormal_shortest .., ?_, ?_, String.toList_ofList⟩
    · rw [hread]
      exact (value_of_shape hmagnitude).1
    · rw [hread, negateIf_ofDyadic hshape hpos]

end DesignTokens.Number

import DesignTokens.Proofs.Number.Literal
import DesignTokens.Proofs.Number.Printed
import DesignTokens.Proofs.Number.Threshold

/-!
# Rounding in integer units

Integer multiples of one small power of two can be rounded in integer arithmetic: `rounded_units`
says so of the multiples themselves, and `rounded_div` of a fraction that is brought to such a
multiple.  So a computation in doubles can be evaluated exactly, and fast.

A quotient of two doubles is rounded above `1` as soon as the divisor is the lesser of the two, by
however little (`le_rounded_div`).
-/

namespace DesignTokens.Number

/-! ### Units -/

/-- A number of units rounded to 53 binary digits, ties to even. -/
def roundUnits (m : ℕ) : ℕ :=
  roundDiv .even m (Nat.pow 2 (m.log2 - 52)) * Nat.pow 2 (m.log2 - 52)

theorem roundDiv_one (tie : Tie) (m : ℕ) : roundDiv tie m 1 = m := by
  have hrest : tie.roundsUp (m / 1) (m % 1) 1 = false := by
    rw [Nat.mod_one]
    rfl
  unfold roundDiv
  dsimp only
  rw [hrest, if_neg Bool.false_ne_true, Nat.div_one]

/-- Where there are few digits, none is lost. -/
theorem roundUnits_eq_self {m : ℕ} (hm : m < 2 ^ 53) : roundUnits m = m := by
  have hlog : m.log2 - 52 = 0 := by
    rcases Nat.eq_zero_or_pos m with rfl | hpos
    · rfl
    · have := (Nat.log2_lt hpos.ne').mpr hm
      omega
  rw [roundUnits, hlog]
  show roundDiv .even m 1 * 1 = m
  rw [roundDiv_one, mul_one]

/-- A number of units is rounded to a number of units. -/
theorem rounded_units (m : ℕ) {k : ℕ} (hk : k ≤ 1074) :
    rounded (m / 2 ^ k) = roundUnits m / 2 ^ k := by
  have hscale : (m : ℚ) / 2 ^ k = m * 2 ^ (-(k : ℤ)) := by
    rw [zpow_neg, zpow_natCast, div_eq_mul_inv]
  rcases Nat.lt_or_ge m (2 ^ 53) with hsmall | hlarge
  · rw [roundUnits_eq_self hsmall]
    refine rounded_eq_self ⟨m, -k, ?_, by omega, ?_⟩
    · rw [abs_of_nonneg (Int.natCast_nonneg m)]
      exact_mod_cast hsmall
    · rw [hscale, Int.cast_natCast]
  · -- with more digits than fit, the leading one tells the last place that is kept
    have hm : m ≠ 0 := by omega
    have hlog : 53 ≤ m.log2 := (Nat.le_log2 hm).mpr hlarge
    obtain ⟨j, hj⟩ : ∃ j, m.log2 = j + 52 := ⟨m.log2 - 52, by omega⟩
    have hpow (a b : ℤ) : (2 : ℚ) ^ (a + b) = 2 ^ a * 2 ^ b := zpow_add₀ (by norm_num) a b
    have hpos : (0 : ℚ) < 2 ^ (-(k : ℤ)) := zpow_pos (by norm_num) _
    have hlow : (2 : ℚ) ^ ((j : ℤ) + 52) ≤ m := by
      have h := Nat.log2_self_le hm
      rw [hj] at h
      exact_mod_cast h
    have hhigh : (m : ℚ) < 2 ^ ((j : ℤ) + 53) := by
      have h := Nat.lt_log2_self (n := m)
      rw [hj] at h
      exact_mod_cast h
    have hlast : lastPlace (m / 2 ^ k) = j - k := by
      rw [hscale]
      refine lastPlace_eq (by omega) ?_ ?_
      · rw [show (j : ℤ) - k + 52 = j + 52 + -k by ring, hpow]
        exact mul_le_mul_of_nonneg_right hlow hpos.le
      · rw [show (j : ℤ) - k + 53 = j + 53 + -k by ring, hpow]
        exact mul_lt_mul_of_pos_right hhigh hpos
    have hquotient : (m : ℚ) / 2 ^ k / 2 ^ ((j : ℤ) - k) = m / (2 ^ j : ℕ) := by
      rw [zpow_sub₀ (by norm_num), zpow_natCast, zpow_natCast, Nat.cast_pow, Nat.cast_two]
      field_simp
    have hround := roundDiv_even_eq_nearestEven m (d := 2 ^ j) (by positivity)
    rw [rounded, hlast, hquotient, ← hround, Int.cast_natCast, roundUnits, hj, Nat.add_sub_cancel,
      zpow_sub₀ (by norm_num), zpow_natCast, zpow_natCast, Nat.cast_mul, mul_div_assoc]
    congr 2
    exact (Nat.cast_pow 2 j).symm

/-- Rounding does not pass a power of two. -/
theorem roundUnits_le {m j : ℕ} (h : m ≤ 2 ^ j) : roundUnits m ≤ 2 ^ j := by
  have hround := rounded_units m (k := 0) (by norm_num)
  rw [pow_zero, div_one, div_one] at hround
  have hle : rounded m ≤ 2 ^ (j : ℤ) :=
    rounded_le (onGrid_two_zpow (by omega)) (by exact_mod_cast h)
  rw [hround] at hle
  exact_mod_cast hle

/-- A fraction is rounded to the units in which it has 53 binary digits. -/
theorem rounded_div {n d k : ℕ} (hd : 0 < d) (hk : k ≤ 1074) (hlow : 2 ^ 52 * d ≤ n * 2 ^ k)
    (hhigh : n * 2 ^ k < 2 ^ 53 * d) : rounded (n / d) = roundDiv .even (n * 2 ^ k) d / 2 ^ k := by
  have hd' : (0 : ℚ) < d := by exact_mod_cast hd
  have hpos : (0 : ℚ) < 2 ^ k := by positivity
  have hlast : lastPlace (n / d) = -k := by
    have hpow (a : ℕ) : (2 : ℚ) ^ (-(k : ℤ) + a) = 2 ^ a / 2 ^ k := by
      rw [zpow_add₀ (by norm_num), zpow_neg, zpow_natCast, zpow_natCast, mul_comm, div_eq_mul_inv]
    refine lastPlace_eq (by omega) ?_ ?_
    · refine (hpow 52).le.trans ?_
      rw [div_le_div_iff₀ hpos hd']
      exact_mod_cast hlow
    · refine lt_of_lt_of_eq ?_ (hpow 53).symm
      rw [div_lt_div_iff₀ hd' hpos]
      exact_mod_cast hhigh
  have hquotient : (n : ℚ) / d / 2 ^ (-(k : ℤ)) = (n * 2 ^ k : ℕ) / d := by
    rw [zpow_neg, zpow_natCast, Nat.cast_mul, Nat.cast_pow, Nat.cast_two]
    field_simp
  have hround := roundDiv_even_eq_nearestEven (n * 2 ^ k) hd
  rw [rounded, hlast, hquotient, ← hround, Int.cast_natCast, zpow_neg, zpow_natCast, div_eq_mul_inv]

/-! ### Doubles in units -/

/-- `x = m · 2 ^ -k`. -/
structure Counts (k : ℕ) (x : Float) (m : ℕ) : Prop where
  finite : x.isFinite = true
  value_eq : value x = m / 2 ^ k

namespace Counts

variable {k m n : ℕ} {x y : Float}

/-- A result that is exactly a number of units, but for its sign, is rounded to one. -/
theorem abs_of_roundsTo {q : ℚ} {z : Float} (h : RoundsTo q z) (hq : |q| = m / 2 ^ k)
    (hk : k ≤ 1074) (hm : m < 2 ^ 64) : z.isFinite = true ∧ Counts k z.abs (roundUnits m) := by
  have hle : |q| ≤ 2 ^ (1023 : ℤ) := by
    calc |q| = (m : ℚ) / 2 ^ k := hq
      _ ≤ m := div_le_self (Nat.cast_nonneg m) (one_le_pow₀ (by norm_num))
      _ ≤ 2 ^ (64 : ℤ) := by exact_mod_cast hm.le
      _ ≤ 2 ^ (1023 : ℤ) := zpow_le_zpow_right₀ (by norm_num) (by norm_num)
  obtain ⟨hfinite, hvalue⟩ := h.of_abs_le hle
  obtain ⟨habs, habsv⟩ := value_abs hfinite
  exact ⟨hfinite, habs, by rw [habsv, hvalue, abs_rounded, hq, rounded_units m hk]⟩

theorem of_roundsTo {q : ℚ} {z : Float} (h : RoundsTo q z) (hq : q = m / 2 ^ k) (hk : k ≤ 1074)
    (hm : m < 2 ^ 64) : Counts k z (roundUnits m) := by
  have h0 : 0 ≤ q := hq ▸ by positivity
  obtain ⟨hfinite, hcounts⟩ := abs_of_roundsTo h (by rw [abs_of_nonneg h0, hq]) hk hm
  refine ⟨hfinite, ?_⟩
  rw [← hcounts.value_eq, (value_abs hfinite).2, h.value_eq hfinite,
    abs_of_nonneg (rounded_nonneg h0)]

/-- The digits of a double are no more than rounding leaves. -/
theorem roundUnits_eq (h : Counts k x m) (hk : k ≤ 1074) : roundUnits m = m := by
  have hself := rounded_eq_self (onGrid_value h.finite)
  rw [h.value_eq, rounded_units m hk, div_left_inj' (by positivity)] at hself
  exact_mod_cast hself

theorem add (hx : Counts k x m) (hy : Counts k y n) (hk : k ≤ 1074) (hmn : m + n < 2 ^ 64) :
    Counts k (x + y) (roundUnits (m + n)) := by
  refine of_roundsTo (add_roundsTo hx.finite hy.finite) ?_ hk hmn
  rw [hx.value_eq, hy.value_eq, Nat.cast_add, add_div]

theorem sub (hx : Counts k x m) (hy : Counts k y n) (hk : k ≤ 1074) (hm : m < 2 ^ 64)
    (hnm : n ≤ m) : Counts k (x - y) (roundUnits (m - n)) := by
  refine of_roundsTo (sub_roundsTo hx.finite hy.finite) ?_ hk (by omega)
  rw [hx.value_eq, hy.value_eq, Nat.cast_sub hnm, sub_div]

/-- The magnitude of a difference, whichever of the two is the greater. -/
theorem abs_sub (hx : Counts k x m) (hy : Counts k y n) (hk : k ≤ 1074) (hm : m < 2 ^ 64)
    (hn : n < 2 ^ 64) : Counts k (x - y).abs (roundUnits (m - n + (n - m))) := by
  refine (abs_of_roundsTo (sub_roundsTo hx.finite hy.finite) ?_ hk (by omega)).2
  rw [hx.value_eq, hy.value_eq, ← sub_div, abs_div, abs_of_pos (by positivity : (0 : ℚ) < 2 ^ k)]
  congr 1
  rcases le_total m n with hle | hle
  · rw [abs_of_nonpos (sub_nonpos.mpr (by exact_mod_cast hle)), Nat.sub_eq_zero_of_le hle, zero_add,
      Nat.cast_sub hle, neg_sub]
  · rw [abs_of_nonneg (sub_nonneg.mpr (by exact_mod_cast hle)), Nat.sub_eq_zero_of_le hle, add_zero,
      Nat.cast_sub hle]

end Counts

/-! ### Quotients above one -/

/-- What is above `1` by more than half a last place is rounded above it. -/
theorem le_rounded_of_one_lt {q : ℚ} (h : 1 + 2 ^ (-53 : ℤ) < q) :
    1 + 2 ^ (-52 : ℤ) ≤ rounded q := by
  rcases lt_or_ge q 2 with hbelow | habove
  · have hlast : lastPlace q = -52 := by
      refine lastPlace_eq (by norm_num) ?_ ?_
      · norm_num at h ⊢
        linarith
      · norm_num
        exact hbelow
    have hnear := (abs_le.mp (abs_nearestEven_sub_le (q / 2 ^ (-52 : ℤ)))).1
    have hscaled : (2 : ℚ) ^ 52 + 1 / 2 < q / 2 ^ (-52 : ℤ) := by
      rw [lt_div_iff₀ (by positivity)]
      norm_num at h ⊢
      linarith
    -- more than half a unit above `2 ^ 52`, the nearest integer is not `2 ^ 52` any more
    have hdigits : 2 ^ 52 + 1 ≤ nearestEven (q / 2 ^ (-52 : ℤ)) := by
      have hlt : ((2 ^ 52 : ℤ) : ℚ) < nearestEven (q / 2 ^ (-52 : ℤ)) := by
        push_cast
        linarith
      exact_mod_cast hlt
    have hcast : (2 : ℚ) ^ 52 + 1 ≤ nearestEven (q / 2 ^ (-52 : ℤ)) := by exact_mod_cast hdigits
    rw [rounded, hlast]
    calc (1 : ℚ) + 2 ^ (-52 : ℤ) = (2 ^ 52 + 1) * 2 ^ (-52 : ℤ) := by norm_num
      _ ≤ nearestEven (q / 2 ^ (-52 : ℤ)) * 2 ^ (-52 : ℤ) :=
        mul_le_mul_of_nonneg_right hcast (by positivity)
  · refine (le_rounded ⟨2, 0, by norm_num, by norm_num, by norm_num⟩ habove).trans' ?_
    norm_num

/-- Numbers of the grid that differ do so by a last place of the lesser one. -/
theorem OnGrid.add_lastPlace_le {p q : ℚ} (hp : OnGrid p) (hq : OnGrid q) (h0 : 0 < q)
    (hnormal : -1074 < lastPlace q) (hlt : q < p) : q + 2 ^ lastPlace q ≤ p := by
  have hpos : (0 : ℚ) < 2 ^ lastPlace q := zpow_pos (by norm_num) _
  have hself : q = nearestEven (q / 2 ^ lastPlace q) * 2 ^ lastPlace q := (rounded_eq_self hq).symm
  have hleast := two_zpow_lastPlace_le_abs h0.ne' hnormal
  rw [abs_of_pos h0] at hleast
  -- the greater number is a multiple of the same place: with a finer one it would not reach so far
  obtain ⟨j, hj⟩ : ∃ j : ℤ, p = j * 2 ^ lastPlace q := by
    obtain ⟨m, e, hm, -, rfl⟩ := hp
    rcases le_or_gt (lastPlace q) e with hle | hgt
    · refine ⟨m * 2 ^ (e - lastPlace q).toNat, ?_⟩
      rw [Int.cast_mul, Int.cast_pow, Int.cast_ofNat, mul_assoc, ← zpow_natCast,
        ← zpow_add₀ (by norm_num)]
      congr 2
      omega
    · have hsmall : (m : ℚ) * 2 ^ e ≤ 2 ^ (lastPlace q + 52) := by
        have hm' : (m : ℚ) ≤ 2 ^ (53 : ℤ) := by exact_mod_cast (le_abs_self m).trans hm.le
        calc (m : ℚ) * 2 ^ e ≤ 2 ^ (53 : ℤ) * 2 ^ e :=
            mul_le_mul_of_nonneg_right hm' (zpow_pos (by norm_num) e).le
          _ = 2 ^ (53 + e) := (zpow_add₀ (by norm_num) _ _).symm
          _ ≤ 2 ^ (lastPlace q + 52) := zpow_le_zpow_right₀ (by norm_num) (by omega)
      linarith
  have hstep : nearestEven (q / 2 ^ lastPlace q) + 1 ≤ j := by
    have h : (nearestEven (q / 2 ^ lastPlace q) : ℚ) * 2 ^ lastPlace q < j * 2 ^ lastPlace q := by
      rw [← hself, ← hj]
      exact hlt
    exact_mod_cast lt_of_mul_lt_mul_right h hpos.le
  have hcast : (nearestEven (q / 2 ^ lastPlace q) : ℚ) + 1 ≤ j := by exact_mod_cast hstep
  calc q + 2 ^ lastPlace q = (nearestEven (q / 2 ^ lastPlace q) + 1) * 2 ^ lastPlace q := by
        rw [add_mul, one_mul, ← hself]
    _ ≤ j * 2 ^ lastPlace q := mul_le_mul_of_nonneg_right hcast hpos.le
    _ = p := hj.symm

/-- A quotient by a lesser number of the grid is rounded above `1`. -/
theorem le_rounded_div {p q : ℚ} (hp : OnGrid p) (hq : OnGrid q) (h0 : 0 < q)
    (hnormal : -1074 < lastPlace q) (hlt : q < p) : 1 + 2 ^ (-52 : ℤ) ≤ rounded (p / q) := by
  apply le_rounded_of_one_lt
  have hstep := hp.add_lastPlace_le hq h0 hnormal hlt
  have hplace : 2 ^ (-53 : ℤ) * q < 2 ^ lastPlace q := by
    have hbound := abs_lt_two_zpow_lastPlace q
    rw [abs_of_pos h0] at hbound
    calc 2 ^ (-53 : ℤ) * q < 2 ^ (-53 : ℤ) * 2 ^ (lastPlace q + 53) :=
        mul_lt_mul_of_pos_left hbound (by positivity)
      _ = 2 ^ lastPlace q := by
          rw [← zpow_add₀ (by norm_num)]
          congr 1
          ring
  rw [lt_div_iff₀ h0, add_mul, one_mul]
  linarith

end DesignTokens.Number

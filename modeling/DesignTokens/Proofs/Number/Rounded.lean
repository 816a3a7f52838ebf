import Mathlib

/-!
# Rounding a rational number to the grid of doubles

`rounded q` is the number with 53 binary digits nearest to `q`, ties to even; below `2 ^ -1022` the
last place is `2 ^ -1074`.  There is no greatest number here: where doubles end is a matter of
packing.

* `rounded_mono`: rounding is monotone.
* `rounded_eq_self`: a number of the grid (`OnGrid`) is not changed.  With the order this gives
  `rounded_le` and `le_rounded`, by which bounds are carried through a computation.
* `abs_rounded_sub_le`: the result is within half of the last place.
-/

namespace DesignTokens.Number

/-! ### Integers -/

/-- The integer nearest to `q`, ties to even. -/
def nearestEven (q : ℚ) : ℤ :=
  if Int.fract q < 1 / 2 then ⌊q⌋
  else if 1 / 2 < Int.fract q then ⌊q⌋ + 1
  else ⌊q⌋ + ⌊q⌋ % 2

theorem floor_le_nearestEven (q : ℚ) : ⌊q⌋ ≤ nearestEven q := by
  unfold nearestEven
  split_ifs <;> omega

theorem nearestEven_le_floor_add_one (q : ℚ) : nearestEven q ≤ ⌊q⌋ + 1 := by
  unfold nearestEven
  split_ifs <;> omega

@[simp]
theorem nearestEven_intCast (n : ℤ) : nearestEven n = n := by
  simp [nearestEven]

theorem nearestEven_two_pow (n : ℕ) : nearestEven (2 ^ n) = 2 ^ n := by
  have h := nearestEven_intCast (2 ^ n)
  push_cast at h
  exact h

/-- The nearest integer is within `1 / 2`. -/
theorem abs_nearestEven_sub_le (q : ℚ) : |(nearestEven q : ℚ) - q| ≤ 1 / 2 := by
  have hq := Int.floor_add_fract q
  have h0 := Int.fract_nonneg q
  unfold nearestEven
  rw [abs_le]
  split_ifs with hlt hgt
  · constructor <;> linarith
  · push_cast
    have h1 := Int.fract_lt_one q
    constructor <;> linarith
  · have hhalf : Int.fract q = 1 / 2 := le_antisymm (not_lt.mp hgt) (not_lt.mp hlt)
    have hmod : (⌊q⌋ % 2 : ℤ) = 0 ∨ (⌊q⌋ % 2 : ℤ) = 1 := by omega
    rcases hmod with h | h <;> rw [h] <;> push_cast <;> constructor <;> linarith

theorem nearestEven_mono : Monotone nearestEven := by
  intro p q hpq
  rcases (Int.floor_le_floor hpq).lt_or_eq with hlt | heq
  · have h1 := nearestEven_le_floor_add_one p
    have h2 := floor_le_nearestEven q
    omega
  · -- on one unit interval only the fractional parts decide
    have hfract : Int.fract p ≤ Int.fract q := by
      have hp := Int.floor_add_fract p
      have hq := Int.floor_add_fract q
      rw [heq] at hp
      linarith
    unfold nearestEven
    rw [heq]
    split_ifs <;> first | omega | linarith

theorem nearestEven_neg (q : ℚ) : nearestEven (-q) = -nearestEven q := by
  by_cases hz : Int.fract q = 0
  · obtain ⟨n, hn⟩ : ∃ n : ℤ, q = n := ⟨⌊q⌋, by have := Int.floor_add_fract q; linarith⟩
    rw [hn, ← Int.cast_neg, nearestEven_intCast, nearestEven_intCast]
  · have hfract : Int.fract (-q) = 1 - Int.fract q := Int.fract_neg hz
    have hfloor : ⌊-q⌋ = -⌊q⌋ - 1 := by
      have h1 := Int.floor_add_fract q
      have h2 := Int.floor_add_fract (-q)
      have : ((⌊-q⌋ : ℤ) : ℚ) = ((-⌊q⌋ - 1 : ℤ) : ℚ) := by push_cast; linarith
      exact_mod_cast this
    unfold nearestEven
    rw [hfract, hfloor]
    split_ifs <;> first | omega | linarith

/-! ### The grid -/

/-- The exponent of the last place that is kept of a number. -/
def lastPlace (q : ℚ) : ℤ :=
  max (Int.log 2 |q| - 52) (-1074)

/-- The number of the grid of doubles nearest to `q`, ties to even. -/
def rounded (q : ℚ) : ℚ :=
  nearestEven (q / 2 ^ lastPlace q) * 2 ^ lastPlace q

/-- The numbers that doubles would stand for if there were no greatest one. -/
def OnGrid (q : ℚ) : Prop :=
  ∃ m e : ℤ, |m| < 2 ^ 53 ∧ -1074 ≤ e ∧ q = m * 2 ^ e

private theorem two_zpow_pos (e : ℤ) : (0 : ℚ) < 2 ^ e :=
  zpow_pos (by norm_num) e

theorem neg_1074_le_lastPlace (q : ℚ) : -1074 ≤ lastPlace q :=
  le_max_right _ _

theorem lastPlace_neg (q : ℚ) : lastPlace (-q) = lastPlace q := by
  rw [lastPlace, abs_neg, lastPlace]

/-- Below a power of two the last place is bounded. -/
theorem lastPlace_le {q : ℚ} {e : ℤ} (hq : |q| < 2 ^ (e + 53)) (he : -1074 ≤ e)
    (h0 : q ≠ 0) : lastPlace q ≤ e := by
  have hlog : Int.log 2 |q| < e + 53 := by
    rw [← Int.lt_zpow_iff_log_lt (by norm_num) (abs_pos.mpr h0)]
    exact_mod_cast hq
  unfold lastPlace
  omega

theorem lastPlace_mono {p q : ℚ} (hp : p ≠ 0) (hpq : |p| ≤ |q|) : lastPlace p ≤ lastPlace q := by
  have hlog : Int.log 2 |p| ≤ Int.log 2 |q| := Int.log_mono_right (abs_pos.mpr hp) hpq
  unfold lastPlace
  omega

/-- A number has at most 53 digits before its last place. -/
theorem abs_lt_two_zpow_lastPlace (q : ℚ) : |q| < 2 ^ (lastPlace q + 53) := by
  have h1 : |q| < ((2 : ℕ) : ℚ) ^ (Int.log 2 |q| + 1) := Int.lt_zpow_succ_log_self (by norm_num) _
  have h2 : (2 : ℚ) ^ (Int.log 2 |q| + 1) ≤ 2 ^ (lastPlace q + 53) :=
    zpow_le_zpow_right₀ (by norm_num) (by unfold lastPlace; omega)
  exact lt_of_lt_of_le (by exact_mod_cast h1) h2

/-- Above the least last place, a number has all its 53 digits before it. -/
theorem two_zpow_lastPlace_le_abs {q : ℚ} (hq : q ≠ 0) (h : -1074 < lastPlace q) :
    2 ^ (lastPlace q + 52) ≤ |q| := by
  have hlog : lastPlace q + 52 = Int.log 2 |q| := by unfold lastPlace at h ⊢; omega
  rw [hlog]
  exact_mod_cast Int.zpow_log_le_self (by norm_num) (abs_pos.mpr hq)

/-! ### Rounding -/

@[simp]
theorem rounded_zero : rounded 0 = 0 := by
  have h : nearestEven 0 = 0 := by exact_mod_cast nearestEven_intCast 0
  simp [rounded, h]

theorem rounded_neg (q : ℚ) : rounded (-q) = -rounded q := by
  rw [rounded, lastPlace_neg, neg_div, nearestEven_neg, Int.cast_neg, neg_mul, rounded]

/-- A number that is a multiple of its last place is not changed. -/
theorem rounded_eq_of_eq_mul {q : ℚ} {m e : ℤ} (he : lastPlace q ≤ e) (hq : q = m * 2 ^ e) :
    rounded q = q := by
  obtain ⟨k, hk⟩ : ∃ k : ℕ, e = lastPlace q + k := ⟨(e - lastPlace q).toNat, by omega⟩
  have hdiv : q / 2 ^ lastPlace q = ((m * 2 ^ k : ℤ) : ℚ) := by
    rw [div_eq_iff (two_zpow_pos _).ne']
    conv_lhs => rw [hq, hk, zpow_add₀ (by norm_num), zpow_natCast]
    push_cast
    ring
  rw [rounded, hdiv, nearestEven_intCast, ← hdiv, div_mul_cancel₀ _ (two_zpow_pos _).ne']

theorem rounded_eq_self {q : ℚ} (hq : OnGrid q) : rounded q = q := by
  obtain ⟨m, e, hm, he, heq⟩ := hq
  by_cases h0 : q = 0
  · rw [h0, rounded_zero]
  refine rounded_eq_of_eq_mul (lastPlace_le ?_ he h0) heq
  rw [heq, abs_mul, abs_of_pos (two_zpow_pos e), zpow_add₀ (by norm_num), mul_comm]
  have hm' : (|m| : ℚ) < 2 ^ (53 : ℤ) := by exact_mod_cast hm
  exact mul_lt_mul_of_pos_left hm' (two_zpow_pos e)

/-- What is rounded lies within half of its last place. -/
theorem abs_rounded_sub_le (q : ℚ) : |rounded q - q| ≤ 2 ^ lastPlace q / 2 := by
  have hpos := two_zpow_pos (lastPlace q)
  have hq : q = q / 2 ^ lastPlace q * 2 ^ lastPlace q := (div_mul_cancel₀ _ hpos.ne').symm
  have herr := abs_nearestEven_sub_le (q / 2 ^ lastPlace q)
  calc |rounded q - q|
      = |(nearestEven (q / 2 ^ lastPlace q) - q / 2 ^ lastPlace q) * 2 ^ lastPlace q| := by
        rw [rounded, sub_mul, ← hq]
    _ = |(nearestEven (q / 2 ^ lastPlace q) : ℚ) - q / 2 ^ lastPlace q| * 2 ^ lastPlace q := by
        rw [abs_mul, abs_of_pos hpos]
    _ ≤ 1 / 2 * 2 ^ lastPlace q := mul_le_mul_of_nonneg_right herr hpos.le
    _ = 2 ^ lastPlace q / 2 := by ring

/-- A multiple of the last place of a number stays above it. -/
private theorem rounded_le_mul {q : ℚ} {m e : ℤ} (he : lastPlace q ≤ e) (hq : q ≤ m * 2 ^ e) :
    rounded q ≤ m * 2 ^ e := by
  have hpos := two_zpow_pos (lastPlace q)
  obtain ⟨k, hk⟩ : ∃ k : ℕ, e = lastPlace q + k := ⟨(e - lastPlace q).toNat, by omega⟩
  have hm : (m : ℚ) * 2 ^ e = ((m * 2 ^ k : ℤ) : ℚ) * 2 ^ lastPlace q := by
    rw [hk, zpow_add₀ (by norm_num), zpow_natCast]
    push_cast
    ring
  rw [hm] at hq ⊢
  have hle : nearestEven (q / 2 ^ lastPlace q) ≤ m * 2 ^ k := by
    rw [← nearestEven_intCast (m * 2 ^ k)]
    exact nearestEven_mono ((div_le_iff₀ hpos).mpr hq)
  exact mul_le_mul_of_nonneg_right (by exact_mod_cast hle) hpos.le

private theorem mul_le_rounded {q : ℚ} {m e : ℤ} (he : lastPlace q ≤ e) (hq : m * 2 ^ e ≤ q) :
    m * 2 ^ e ≤ rounded q := by
  have h := rounded_le_mul (q := -q) (m := -m) (e := e) (by rwa [lastPlace_neg])
    (by push_cast; linarith)
  rw [rounded_neg] at h
  push_cast at h
  linarith

theorem rounded_nonneg {q : ℚ} (hq : 0 ≤ q) : 0 ≤ rounded q := by
  have h := mul_le_rounded (m := 0) le_rfl (by simpa using hq)
  simpa using h

private theorem rounded_mono_of_pos {p q : ℚ} (hp : 0 < p) (hpq : p ≤ q) :
    rounded p ≤ rounded q := by
  have hq : 0 < q := lt_of_lt_of_le hp hpq
  have hle : lastPlace p ≤ lastPlace q :=
    lastPlace_mono hp.ne' (by rwa [abs_of_pos hp, abs_of_pos hq])
  rcases hle.lt_or_eq with hlt | heq
  · -- the power of two at which the last place moves lies between them
    have hbelow : p < 2 ^ (lastPlace q + 52) := by
      have h1 := abs_lt_two_zpow_lastPlace p
      rw [abs_of_pos hp] at h1
      exact lt_of_lt_of_le h1 (zpow_le_zpow_right₀ (by norm_num) (by omega))
    have habove : 2 ^ (lastPlace q + 52) ≤ q := by
      have h1 := two_zpow_lastPlace_le_abs hq.ne'
        (lt_of_le_of_lt (neg_1074_le_lastPlace p) hlt)
      rwa [abs_of_pos hq] at h1
    have h1 : rounded p ≤ ((1 : ℤ) : ℚ) * 2 ^ (lastPlace q + 52) :=
      rounded_le_mul (by omega) (by simpa using hbelow.le)
    have h2 : ((1 : ℤ) : ℚ) * 2 ^ (lastPlace q + 52) ≤ rounded q :=
      mul_le_rounded (by omega) (by simpa using habove)
    exact h1.trans h2
  · have hpos := two_zpow_pos (lastPlace q)
    rw [rounded, rounded, heq]
    have h1 : nearestEven (p / 2 ^ lastPlace q) ≤ nearestEven (q / 2 ^ lastPlace q) :=
      nearestEven_mono (div_le_div_of_nonneg_right hpq hpos.le)
    exact mul_le_mul_of_nonneg_right (by exact_mod_cast h1) hpos.le

/-- Rounding is monotone. -/
theorem rounded_mono : Monotone rounded := by
  intro p q hpq
  rcases lt_or_ge 0 p with hp | hp
  · exact rounded_mono_of_pos hp hpq
  rcases lt_or_ge q 0 with hq | hq
  · have h := rounded_mono_of_pos (neg_pos.mpr hq) (neg_le_neg hpq)
    rw [rounded_neg, rounded_neg] at h
    exact neg_le_neg_iff.mp h
  · have h1 : 0 ≤ rounded (-p) := rounded_nonneg (neg_nonneg.mpr hp)
    rw [rounded_neg] at h1
    have h2 := rounded_nonneg hq
    linarith

theorem rounded_le {q y : ℚ} (hy : OnGrid y) (hq : q ≤ y) : rounded q ≤ y := by
  rw [← rounded_eq_self hy]
  exact rounded_mono hq

theorem le_rounded {q y : ℚ} (hy : OnGrid y) (hq : y ≤ q) : y ≤ rounded q := by
  rw [← rounded_eq_self hy]
  exact rounded_mono hq

theorem OnGrid.neg {q : ℚ} (h : OnGrid q) : OnGrid (-q) := by
  obtain ⟨m, e, hm, he, rfl⟩ := h
  refine ⟨-m, e, by rwa [abs_neg], he, ?_⟩
  rw [Int.cast_neg, neg_mul]

/-- A bound on both sides of zero is carried through like one on a single side. -/
theorem abs_rounded_le {q y : ℚ} (hy : OnGrid y) (hq : |q| ≤ y) : |rounded q| ≤ y := by
  rw [abs_le] at hq ⊢
  exact ⟨le_rounded hy.neg hq.1, rounded_le hy hq.2⟩

/-- The error below a power of two, away from the least last place. -/
theorem abs_rounded_sub_le_of_abs_le {q : ℚ} {k : ℤ} (hq : |q| ≤ 2 ^ k) (hk : -1022 ≤ k) :
    |rounded q - q| ≤ 2 ^ (k - 53) := by
  by_cases h0 : q = 0
  · rw [h0, rounded_zero, sub_zero, abs_zero]
    exact (two_zpow_pos _).le
  have hlast : lastPlace q ≤ k - 52 := by
    refine lastPlace_le (lt_of_le_of_lt hq ?_) (by omega) h0
    exact zpow_lt_zpow_right₀ (by norm_num) (by omega)
  calc |rounded q - q| ≤ 2 ^ lastPlace q / 2 := abs_rounded_sub_le q
    _ ≤ 2 ^ (k - 52) / 2 := by
        have h := zpow_le_zpow_right₀ (a := (2 : ℚ)) (by norm_num) hlast
        linarith
    _ = 2 ^ (k - 53) := by
        rw [show k - 52 = k - 53 + 1 by ring, zpow_add_one₀ (by norm_num)]
        ring

end DesignTokens.Number

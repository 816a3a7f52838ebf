import DesignTokens.Proofs.Number.Value

/-!
# Where rounding reaches a number

A number is rounded to one with an even last digit, or beyond it, exactly from the middle below on
(`le_rounded_iff`).  At the end of the range this tells which exact results are finite doubles:
`RoundsTo.isFinite_iff`.  At the other end, what is above the middle between zero and the least
double is not lost (`rounded_pos`).

A result that is exactly no greater than a finite double is finite (`RoundsTo.of_abs_le_value`);
this needs no threshold.
-/

namespace DesignTokens.Number

open Float.Model Float.Model.UnpackedFloat

theorem half_two_zpow (e : ℤ) : (2 : ℚ) ^ e / 2 = 2 ^ (e - 1) := by
  rw [zpow_sub_one₀ (by norm_num), div_eq_mul_inv]

/-! ### Thresholds -/

/-- An even number is reached from the half below it on. -/
theorem le_nearestEven_iff {m : ℤ} (hm : m % 2 = 0) (q : ℚ) :
    m ≤ nearestEven q ↔ (m : ℚ) - 1 / 2 ≤ q := by
  constructor
  · intro h
    have herr := (abs_le.mp (abs_nearestEven_sub_le q)).2
    have hcast : (m : ℚ) ≤ nearestEven q := by exact_mod_cast h
    linarith
  · intro h
    -- the half itself goes up, to the even neighbour
    have hfloor : ⌊(m : ℚ) - 1 / 2⌋ = m - 1 := by
      rw [Int.floor_eq_iff]
      push_cast
      constructor <;> linarith
    have hfract : Int.fract ((m : ℚ) - 1 / 2) = 1 / 2 := by
      rw [Int.fract, hfloor]
      push_cast
      ring
    have hhalf : nearestEven ((m : ℚ) - 1 / 2) = m := by
      unfold nearestEven
      rw [hfract, hfloor, if_neg (lt_irrefl _), if_neg (lt_irrefl _)]
      omega
    calc m = nearestEven ((m : ℚ) - 1 / 2) := hhalf.symm
      _ ≤ nearestEven q := nearestEven_mono h

/-- Zero is what is at most a half away from it. -/
theorem nearestEven_eq_zero_iff (q : ℚ) : nearestEven q = 0 ↔ |q| ≤ 1 / 2 := by
  have hbelow := le_nearestEven_iff (m := 0) rfl q
  have habove := le_nearestEven_iff (m := 0) rfl (-q)
  rw [Int.cast_zero, zero_sub] at hbelow habove
  rw [nearestEven_neg, neg_le_neg_iff] at habove
  rw [abs_le, ← hbelow, ← habove]
  omega

theorem onGrid_two_zpow {e : ℤ} (he : -1074 ≤ e) : OnGrid (2 ^ e) :=
  ⟨1, e, by norm_num, he, by simp⟩

/-- Between two powers of two the last place is known. -/
theorem lastPlace_eq {q : ℚ} {e : ℤ} (he : -1074 ≤ e) (hlow : 2 ^ (e + 52) ≤ q)
    (hhigh : q < 2 ^ (e + 53)) : lastPlace q = e := by
  have hpos : 0 < q := (zpow_pos (by norm_num) _).trans_le hlow
  apply le_antisymm
  · exact lastPlace_le (by rwa [abs_of_pos hpos]) he hpos.ne'
  · have hlog : e + 52 ≤ Int.log 2 |q| := by
      rw [abs_of_pos hpos]
      exact (Int.zpow_le_iff_le_log (by norm_num) hpos).mp (by exact_mod_cast hlow)
    unfold lastPlace
    omega

/-- What is rounded to a number with an even last digit, or beyond. -/
theorem le_rounded_iff {m e : ℤ} (hm : m % 2 = 0) (hlow : 2 ^ 52 < m) (hhigh : m ≤ 2 ^ 53)
    (he : -1074 ≤ e) (q : ℚ) : m * 2 ^ e ≤ rounded q ↔ ((m : ℚ) - 1 / 2) * 2 ^ e ≤ q := by
  have hpos : (0 : ℚ) < 2 ^ e := zpow_pos (by norm_num) e
  have hpow (k : ℕ) : (2 : ℚ) ^ (e + k) = 2 ^ k * 2 ^ e := by
    rw [zpow_add₀ (by norm_num), zpow_natCast, mul_comm]
  have hlow' : (2 : ℚ) ^ 52 + 1 ≤ m := by exact_mod_cast hlow
  have hhigh' : (m : ℚ) ≤ 2 ^ 53 := by exact_mod_cast hhigh
  rcases lt_or_ge q (2 ^ (e + 52)) with hbelow | habove
  · -- too small for either
    have hr := rounded_le (onGrid_two_zpow (by omega)) hbelow.le
    have hp := hpow 52
    push_cast at hp
    rw [hp] at hbelow hr
    constructor
    · intro h
      nlinarith
    · intro h
      nlinarith
  rcases lt_or_ge q (2 ^ (e + 53)) with hinside | hbeyond
  · have hlast := lastPlace_eq he habove hinside
    rw [rounded, hlast, mul_le_mul_iff_left₀ hpos, Int.cast_le, le_nearestEven_iff hm,
      le_div_iff₀ hpos]
  · -- large enough for both
    have hr := le_rounded (onGrid_two_zpow (by omega)) hbeyond
    have hp := hpow 53
    push_cast at hp
    rw [hp] at hbeyond hr
    constructor
    · intro _
      nlinarith
    · intro _
      nlinarith

/-! ### The least double -/

/-- A positive number of the grid is at least the least double. -/
theorem OnGrid.two_zpow_le {q : ℚ} (hq : OnGrid q) (h0 : 0 < q) : 2 ^ (-1074 : ℤ) ≤ q := by
  obtain ⟨m, e, -, he, rfl⟩ := hq
  have hpos : (0 : ℚ) < 2 ^ e := zpow_pos (by norm_num) e
  have hm : (1 : ℚ) ≤ m := by exact_mod_cast (pos_of_mul_pos_left h0 hpos.le : (0 : ℚ) < m)
  calc (2 : ℚ) ^ (-1074 : ℤ) ≤ 2 ^ e := zpow_le_zpow_right₀ (by norm_num) he
    _ ≤ m * 2 ^ e := le_mul_of_one_le_left hpos.le hm

theorem OnGrid.exists_eq_mul {q : ℚ} (hq : OnGrid q) : ∃ k : ℤ, q = k * 2 ^ (-1074 : ℤ) := by
  obtain ⟨m, e, -, he, rfl⟩ := hq
  obtain ⟨n, hn⟩ : ∃ n : ℕ, e = n + -1074 := ⟨(e + 1074).toNat, by omega⟩
  refine ⟨m * 2 ^ n, ?_⟩
  rw [hn, zpow_add₀ (by norm_num), zpow_natCast, Int.cast_mul, Int.cast_pow,
    Int.cast_ofNat, mul_assoc]

/-- Two numbers of the grid are apart by the least double or more. -/
theorem OnGrid.two_zpow_le_sub {p q : ℚ} (hp : OnGrid p) (hq : OnGrid q) (hlt : p < q) :
    2 ^ (-1074 : ℤ) ≤ q - p := by
  obtain ⟨k, rfl⟩ := hp.exists_eq_mul
  obtain ⟨l, rfl⟩ := hq.exists_eq_mul
  have hpos : (0 : ℚ) < 2 ^ (-1074 : ℤ) := zpow_pos (by norm_num) _
  rw [mul_lt_mul_iff_left₀ hpos, Int.cast_lt] at hlt
  have hone : (1 : ℚ) ≤ l - k := by exact_mod_cast (by omega : (1 : ℤ) ≤ l - k)
  rw [← sub_mul]
  exact le_mul_of_one_le_left hpos.le hone

/-- What is above the middle between zero and the least double is not rounded to zero. -/
theorem rounded_pos {q : ℚ} (hq : 2 ^ (-1075 : ℤ) < q) : 0 < rounded q := by
  have hpos : 0 < q := (zpow_pos (by norm_num) _).trans hq
  rcases le_or_gt (2 ^ (-1074 : ℤ)) q with hge | hlt
  · exact (zpow_pos (by norm_num) (-1074)).trans_le (le_rounded (onGrid_two_zpow le_rfl) hge)
  · have hlast : lastPlace q ≤ -1074 := by
      refine lastPlace_le ?_ le_rfl hpos.ne'
      rw [abs_of_pos hpos]
      exact hlt.trans (zpow_lt_zpow_right₀ (by norm_num) (by norm_num))
    have hhalf : (2 : ℚ) ^ lastPlace q / 2 ≤ 2 ^ (-1075 : ℤ) := by
      calc (2 : ℚ) ^ lastPlace q / 2 ≤ 2 ^ (-1074 : ℤ) / 2 := by
            gcongr
            norm_num
        _ = 2 ^ (-1075 : ℤ) := half_two_zpow _
    have herr := (abs_le.mp (abs_rounded_sub_le q)).1
    linarith

/-- What is not above it is rounded to zero. -/
theorem rounded_eq_zero {q : ℚ} (h0 : 0 ≤ q) (hq : q ≤ 2 ^ (-1075 : ℤ)) : rounded q = 0 := by
  rcases h0.eq_or_lt with rfl | hpos
  · exact rounded_zero
  · have hlast : lastPlace q = -1074 := by
      refine le_antisymm (lastPlace_le ?_ le_rfl hpos.ne') (neg_1074_le_lastPlace q)
      rw [abs_of_pos hpos]
      exact hq.trans_lt (zpow_lt_zpow_right₀ (by norm_num) (by norm_num))
    have hhalf : |q / 2 ^ (-1074 : ℤ)| ≤ 1 / 2 := by
      rw [abs_of_pos (div_pos hpos (zpow_pos (by norm_num) _)),
        div_le_iff₀ (zpow_pos (by norm_num) _), one_div_mul_eq_div, half_two_zpow]
      exact hq
    rw [rounded, hlast, (nearestEven_eq_zero_iff _).mpr hhalf, Int.cast_zero, zero_mul]

/-- The relative error is at most half of the last of 53 digits, apart from the least doubles. -/
theorem abs_rounded_sub_le_mul (q : ℚ) :
    |rounded q - q| ≤ |q| * 2 ^ (-53 : ℤ) + 2 ^ (-1075 : ℤ) := by
  have herr := abs_rounded_sub_le q
  have hsmall : (0 : ℚ) < 2 ^ (-1075 : ℤ) := zpow_pos (by norm_num) _
  by_cases h0 : q = 0
  · rw [h0, rounded_zero, sub_zero, abs_zero, zero_mul, zero_add]
    exact hsmall.le
  rcases (neg_1074_le_lastPlace q).lt_or_eq with hlt | heq
  · have hdigits := two_zpow_lastPlace_le_abs h0 hlt
    calc |rounded q - q| ≤ 2 ^ lastPlace q / 2 := herr
      _ = 2 ^ (lastPlace q + 52) * 2 ^ (-53 : ℤ) := by
          rw [half_two_zpow, ← zpow_add₀ (by norm_num)]
          congr 1
          ring
      _ ≤ |q| * 2 ^ (-53 : ℤ) := by gcongr
      _ ≤ |q| * 2 ^ (-53 : ℤ) + 2 ^ (-1075 : ℤ) := le_add_of_nonneg_right hsmall.le
  · calc |rounded q - q| ≤ 2 ^ lastPlace q / 2 := herr
      _ = 2 ^ (-1075 : ℤ) := by
          rw [← heq]
          exact half_two_zpow _
      _ ≤ |q| * 2 ^ (-53 : ℤ) + 2 ^ (-1075 : ℤ) := le_add_of_nonneg_left (by positivity)

/-! ### Overflow -/

/-- The least number that is rounded beyond every double. -/
def overflow : ℚ := limit - 2 ^ (970 : ℤ)

/-- A power of two below the limit with room for 29 of its 32 parts. -/
theorem lt_overflow : 29 * 2 ^ (1019 : ℤ) < overflow := by
  have hlimit : limit = 32 * 2 ^ (1019 : ℤ) := by
    rw [limit, show (1024 : ℤ) = 5 + 1019 by norm_num, zpow_add₀ (by norm_num)]
    norm_num
  have hhalf : (2 : ℚ) ^ (970 : ℤ) ≤ 2 ^ (1019 : ℤ) :=
    zpow_le_zpow_right₀ (by norm_num) (by norm_num)
  have hpos : (0 : ℚ) < 2 ^ (1019 : ℤ) := zpow_pos (by norm_num) _
  rw [overflow, hlimit]
  -- as numerals the powers would be out of reach
  generalize (2 : ℚ) ^ (1019 : ℤ) = unit at *
  generalize (2 : ℚ) ^ (970 : ℤ) = half at *
  linarith

theorem abs_rounded (q : ℚ) : |rounded q| = rounded |q| := by
  rcases le_total 0 q with hq | hq
  · rw [abs_of_nonneg hq, abs_of_nonneg (rounded_nonneg hq)]
  · have h := rounded_nonneg (neg_nonneg.mpr hq)
    rw [rounded_neg] at h
    rw [abs_of_nonpos hq, rounded_neg, abs_of_nonpos (neg_nonneg.mp h)]

theorem abs_rounded_lt_limit_iff (q : ℚ) : |rounded q| < limit ↔ |q| < overflow := by
  have hlimit : limit = ((2 ^ 53 : ℤ) : ℚ) * 2 ^ (971 : ℤ) := by
    rw [limit, show (1024 : ℤ) = (53 : ℕ) + 971 by norm_num, zpow_add₀ (by norm_num), zpow_natCast,
      Int.cast_pow, Int.cast_ofNat]
  have hoverflow : overflow = (((2 ^ 53 : ℤ) : ℚ) - 1 / 2) * 2 ^ (971 : ℤ) := by
    rw [overflow, hlimit, show (970 : ℤ) = 971 - 1 by norm_num, ← half_two_zpow]
    ring
  have h := le_rounded_iff (m := 2 ^ 53) (e := 971) (by norm_num) (by norm_num) (by norm_num)
    (by norm_num) |q|
  rw [abs_rounded, ← not_le, ← not_le, hlimit, hoverflow]
  exact not_congr h

section RoundsTo

variable {q : ℚ} {y z : Float}

/-- A result is finite exactly if the exact one is below the threshold. -/
theorem RoundsTo.isFinite_iff (h : RoundsTo q z) : z.isFinite = true ↔ |q| < overflow := by
  rw [← abs_rounded_lt_limit_iff]
  constructor
  · intro hz
    by_contra hge
    have hu := h.infinite (not_lt.mp hge)
    have hc := (canonical_of_isFinite hz).1
    rw [hu] at hc
    exact hc
  · intro hlt
    exact (h.finite hlt).1

theorem RoundsTo.value_eq (h : RoundsTo q z) (hz : z.isFinite = true) : value z = rounded q :=
  (h.finite ((abs_rounded_lt_limit_iff q).mpr (h.isFinite_iff.mp hz))).2

/-- What is exactly no greater than a finite double stays so, and is finite. -/
theorem RoundsTo.of_abs_le_value (h : RoundsTo q z) (hy : y.isFinite = true)
    (hq : |q| ≤ |value y|) : z.isFinite = true ∧ value z = rounded q ∧ |value z| ≤ |value y| := by
  have habs : |rounded q| ≤ |value y| := by
    calc |rounded q| = rounded |q| := abs_rounded q
      _ ≤ rounded |value y| := rounded_mono hq
      _ = |value y| := by rw [← abs_rounded, rounded_eq_self (onGrid_value hy)]
  obtain ⟨hz, hv⟩ := h.finite (habs.trans_lt (canonical_of_isFinite hy).2)
  exact ⟨hz, hv, by rwa [hv]⟩

/-- The same for results that are not negative. -/
theorem RoundsTo.of_le_value (h : RoundsTo q z) (hy : y.isFinite = true) (h0 : 0 ≤ q)
    (hq : q ≤ value y) :
    z.isFinite = true ∧ value z = rounded q ∧ 0 ≤ value z ∧ value z ≤ value y := by
  have hy0 : 0 ≤ value y := h0.trans hq
  obtain ⟨hz, hv, hle⟩ := h.of_abs_le_value hy (by rwa [abs_of_nonneg h0, abs_of_nonneg hy0])
  have hz0 : 0 ≤ value z := hv ▸ rounded_nonneg h0
  rw [abs_of_nonneg hz0, abs_of_nonneg hy0] at hle
  exact ⟨hz, hv, hz0, hle⟩

end RoundsTo

/-- A difference of doubles that are not negative is finite. -/
theorem isFinite_sub {x y : Float} (hx : x.isFinite = true) (hy : y.isFinite = true)
    (hx0 : 0 ≤ value x) (hy0 : 0 ≤ value y) : (x - y).isFinite = true := by
  have hround := sub_roundsTo hx hy
  rcases le_total (value x) (value y) with h | h
  · refine (hround.of_abs_le_value hy ?_).1
    rw [abs_of_nonpos (sub_nonpos.mpr h), abs_of_nonneg hy0]
    linarith
  · refine (hround.of_abs_le_value hx ?_).1
    rw [abs_of_nonneg (sub_nonneg.mpr h), abs_of_nonneg hx0]
    linarith

/-- The difference of two doubles, the greater one first, is not lost. -/
theorem rounded_sub_pos {x y : Float} (hx : x.isFinite = true) (hy : y.isFinite = true)
    (hlt : value x < value y) : 0 < rounded (value y - value x) :=
  (zpow_pos (by norm_num) _).trans_le
    (le_rounded (onGrid_two_zpow le_rfl) ((onGrid_value hx).two_zpow_le_sub (onGrid_value hy) hlt))

/-! ### Infinities -/

theorem RoundsTo.exists_infinity {q : ℚ} {z : Float} (h : RoundsTo q z) (hz : z.isFinite = false) :
    ∃ s, z.toModel.unpack = .infinity s := by
  have hge : limit ≤ |rounded q| := by
    by_contra hlt
    have hfinite := (h.finite (not_le.mp hlt)).1
    rw [hz] at hfinite
    exact Bool.false_ne_true hfinite
  exact ⟨_, h.infinite hge⟩

theorem isFinite_pack_notANumber :
    (Float.Model.pack .notANumber).unpack.isFinite = false := by decide

theorem isFinite_pack_infinity (s : Sign) :
    (Float.Model.pack (.infinity s)).unpack.isFinite = false := by
  cases s <;> decide

theorem pack_zero_spec (s : Sign) :
    (Float.Model.pack (.zero s)).unpack.isFinite = true ∧
    unpackedValue (Float.Model.pack (.zero s)).unpack = 0 := by
  cases s <;> decide

section Operands

variable {x y : Float} {s : Sign}

/-- `±∞ / y` is not finite. -/
theorem isFinite_infinite_div (hx : x.toModel.unpack = .infinity s) : (x / y).isFinite = false := by
  show (Float.Model.pack
    (UnpackedFloat.div .binary64 x.toModel.unpack y.toModel.unpack)).unpack.isFinite = false
  rw [hx]
  cases y.toModel.unpack with
  | notANumber => exact isFinite_pack_notANumber
  | infinity s' => exact isFinite_pack_notANumber
  | zero s' => exact isFinite_pack_infinity _
  | finite s' m e h => exact isFinite_pack_infinity _

/-- `x / ±∞` is zero for a finite `x`. -/
theorem div_infinite (hx : x.isFinite = true) (hy : y.toModel.unpack = .infinity s) :
    (x / y).isFinite = true ∧ value (x / y) = 0 := by
  have hc := (canonical_of_isFinite hx).1
  show (Float.Model.pack
    (UnpackedFloat.div .binary64 x.toModel.unpack y.toModel.unpack)).unpack.isFinite = true ∧
    unpackedValue (Float.Model.pack
      (UnpackedFloat.div .binary64 x.toModel.unpack y.toModel.unpack)).unpack = 0
  rw [hy]
  generalize x.toModel.unpack = u at hc ⊢
  cases u with
  | notANumber => exact hc.elim
  | infinity s' => exact hc.elim
  | zero s' => exact pack_zero_spec _
  | finite s' m e h => exact pack_zero_spec _

/-- A finite quotient other than zero has a finite divisor. -/
theorem isFinite_of_div (h : (x / y).isFinite = true) (h0 : value (x / y) ≠ 0) :
    y.isFinite = true := by
  change (Float.Model.pack
    (UnpackedFloat.div .binary64 x.toModel.unpack y.toModel.unpack)).unpack.isFinite = true at h
  change unpackedValue
    (Float.Model.pack (UnpackedFloat.div .binary64 x.toModel.unpack y.toModel.unpack)).unpack ≠
      0 at h0
  by_contra hy
  have hquotient : UnpackedFloat.div .binary64 x.toModel.unpack y.toModel.unpack = .notANumber ∨
      ∃ s, UnpackedFloat.div .binary64 x.toModel.unpack y.toModel.unpack = .zero s := by
    change ¬y.toModel.unpack.isFinite = true at hy
    cases x.toModel.unpack <;> cases hv : y.toModel.unpack <;>
      simp_all [UnpackedFloat.div, UnpackedFloat.isFinite]
  rcases hquotient with hq | ⟨s, hq⟩
  · rw [hq, isFinite_pack_notANumber] at h
    cases h
  · rw [hq] at h0
    exact h0 (pack_zero_spec s).2

/-- The factors of a finite product are finite. -/
theorem isFinite_of_mul (h : (x * y).isFinite = true) : x.isFinite = true ∧ y.isFinite = true := by
  change (Float.Model.pack
    (UnpackedFloat.mul .binary64 x.toModel.unpack y.toModel.unpack)).unpack.isFinite = true at h
  by_contra hxy
  have hproduct : UnpackedFloat.mul .binary64 x.toModel.unpack y.toModel.unpack = .notANumber ∨
      ∃ s, UnpackedFloat.mul .binary64 x.toModel.unpack y.toModel.unpack = .infinity s := by
    change ¬(x.toModel.unpack.isFinite = true ∧ y.toModel.unpack.isFinite = true) at hxy
    cases hu : x.toModel.unpack <;> cases hv : y.toModel.unpack <;>
      simp_all [UnpackedFloat.mul, UnpackedFloat.isFinite]
  rcases hproduct with hp | ⟨s, hp⟩
  · rw [hp, isFinite_pack_notANumber] at h
    cases h
  · rw [hp, isFinite_pack_infinity] at h
    cases h

/-- `±∞ * y` is not finite. -/
theorem isFinite_infinite_mul (hx : x.toModel.unpack = .infinity s) : (x * y).isFinite = false := by
  rw [← Bool.not_eq_true]
  intro h
  have hfinite : x.toModel.unpack.isFinite = true := (isFinite_of_mul h).1
  rw [hx] at hfinite
  cases hfinite

end Operands

end DesignTokens.Number

import DesignTokens.Number.Arithmetic
import DesignTokens.Proofs.Number.Value

/-!
# Powers are monotone

The logarithm and the exponential behind `pow` are sums of integer quotients that are rounded down
one by one.  Each of these steps is monotone, so the sums are (`atanhSeries_mono`,
`expSeries_mono`); what is left is to see that nothing jumps back where the leading power of two
changes.  Hence `pow_mono`: powers of positive doubles grow with the base, whatever the error of the
series.
-/

namespace DesignTokens.Number

open Float.Model

/-! ### Sums of quotients -/

theorem ediv_le_ediv_of_mul_le {a b c d : ℤ} (hb : 0 < b) (hd : 0 < d) (h : a * d ≤ c * b) :
    a / b ≤ c / d := by
  rw [Int.le_ediv_iff_mul_le hd]
  have hdiv : a / b * b ≤ a := Int.ediv_mul_le a hb.ne'
  refine le_of_mul_le_mul_right ?_ hb
  calc a / b * d * b = a / b * b * d := by ring
    _ ≤ a * d := mul_le_mul_of_nonneg_right hdiv hd.le
    _ ≤ c * b := h

/-- Two runs of a series, a power and a sum carried along, stay ordered if their steps do. -/
theorem foldl_le_foldl {f g : ℤ × ℤ → ℕ → ℤ × ℤ}
    (hstep : ∀ a b k, 0 ≤ a.1 → a ≤ b → 0 ≤ (f a k).1 ∧ f a k ≤ g b k) (ks : List ℕ) :
    ∀ a b : ℤ × ℤ, 0 ≤ a.1 → a ≤ b → ks.foldl f a ≤ ks.foldl g b := by
  induction ks with
  | nil => exact fun a b _ hab => hab
  | cons k ks ih =>
    intro a b ha hab
    obtain ⟨h0, hle⟩ := hstep a b k ha hab
    exact ih (f a k) (g b k) h0 hle

theorem scaledOne_pos : 0 < one := by decide

theorem atanhSeries_mono (terms : ℕ) {t u : ℤ} (ht : 0 ≤ t) (htu : t ≤ u) :
    atanhSeries terms t ≤ atanhSeries terms u := by
  have hsquare : 0 ≤ t * t / one := Int.ediv_nonneg (mul_nonneg ht ht) scaledOne_pos.le
  have hsquares : t * t / one ≤ u * u / one :=
    Int.ediv_le_ediv scaledOne_pos (mul_le_mul htu htu ht (ht.trans htu))
  refine (foldl_le_foldl ?_ (List.range terms) (t, 0) (u, 0) ht ⟨htu, le_rfl⟩).2
  rintro a b k ha ⟨hpower, hsum⟩
  have hk : (0 : ℤ) < 2 * k + 1 := by positivity
  refine ⟨Int.ediv_nonneg (mul_nonneg ha hsquare) scaledOne_pos.le, ?_, ?_⟩
  · exact Int.ediv_le_ediv scaledOne_pos (mul_le_mul hpower hsquares hsquare (ha.trans hpower))
  · exact add_le_add hsum (Int.ediv_le_ediv hk hpower)

theorem expSeries_mono (terms : ℕ) {t u : ℤ} (ht : 0 ≤ t) (htu : t ≤ u) :
    expSeries terms t ≤ expSeries terms u := by
  refine (foldl_le_foldl ?_ (List.range terms) (one, 0) (one, 0) scaledOne_pos.le le_rfl).2
  rintro a b k ha ⟨hpower, hsum⟩
  have hk : (0 : ℤ) < k + 1 := by positivity
  have hterm : a.1 * t / one ≤ b.1 * u / one :=
    Int.ediv_le_ediv scaledOne_pos (mul_le_mul hpower htu ht (ha.trans hpower))
  refine ⟨?_, ?_, ?_⟩
  · exact Int.ediv_nonneg (Int.ediv_nonneg (mul_nonneg ha ht) scaledOne_pos.le) hk.le
  · exact Int.ediv_le_ediv hk hterm
  · exact add_le_add hsum hpower

theorem logTwo_pos : 0 < logTwo := by decide

/-! ### The logarithm -/

/-- The significand `s` with its point behind the leading digit, scaled. -/
def leadingFraction (s : ℕ) : ℤ :=
  (s : ℤ) * one / Nat.pow 2 s.log2

/-- The argument of the series for the logarithm of a fraction in `[1, 2]`, scaled. -/
def atanhArgument (f : ℤ) : ℤ :=
  (f - one) * one / (f + one)

theorem logScaled_eq (s : ℕ) (e : ℤ) :
    logScaled s e = 2 * atanhSeries 42 (atanhArgument (leadingFraction s)) +
      (e + s.log2) * logTwo :=
  rfl

theorem two_pow_log2_pos (s : ℕ) : (0 : ℤ) < ((Nat.pow 2 s.log2 : ℕ) : ℤ) := by
  exact_mod_cast Nat.two_pow_pos s.log2

theorem leadingFraction_bounds {s : ℕ} (hs : 0 < s) :
    one ≤ leadingFraction s ∧ leadingFraction s ≤ 2 * one := by
  have hlow : Nat.pow 2 s.log2 ≤ s := Nat.log2_self_le hs.ne'
  have hhigh : s < 2 * Nat.pow 2 s.log2 := by
    have := Nat.lt_log2_self (n := s)
    rwa [Nat.pow_succ, mul_comm] at this
  constructor
  · refine (Int.le_ediv_iff_mul_le (two_pow_log2_pos s)).mpr ?_
    rw [mul_comm]
    exact mul_le_mul_of_nonneg_right (by exact_mod_cast hlow) scaledOne_pos.le
  · refine Int.ediv_le_of_le_mul (two_pow_log2_pos s) ?_
    have hle : (s : ℤ) ≤ 2 * ((Nat.pow 2 s.log2 : ℕ) : ℤ) := by exact_mod_cast hhigh.le
    calc (s : ℤ) * one ≤ 2 * ((Nat.pow 2 s.log2 : ℕ) : ℤ) * one :=
        mul_le_mul_of_nonneg_right hle scaledOne_pos.le
      _ = 2 * one * ((Nat.pow 2 s.log2 : ℕ) : ℤ) := by ring

theorem atanhArgument_nonneg {f : ℤ} (hf : one ≤ f) : 0 ≤ atanhArgument f :=
  Int.ediv_nonneg (mul_nonneg (sub_nonneg.mpr hf) scaledOne_pos.le) (by linarith [scaledOne_pos])

theorem atanhArgument_mono {f g : ℤ} (hf : one ≤ f) (hfg : f ≤ g) :
    atanhArgument f ≤ atanhArgument g := by
  have hpos := scaledOne_pos
  refine ediv_le_ediv_of_mul_le (by linarith) (by linarith) ?_
  have h : 0 ≤ one * one * (g - f) := mul_nonneg (mul_nonneg hpos.le hpos.le) (sub_nonneg.mpr hfg)
  linarith [h, show (g - one) * one * (f + one) - (f - one) * one * (g + one) =
    2 * (one * one * (g - f)) by ring]

theorem atanhArgument_le {f : ℤ} (hf : one ≤ f) (hle : f ≤ 2 * one) :
    atanhArgument f ≤ one / 3 := by
  have hpos := scaledOne_pos
  refine ediv_le_ediv_of_mul_le (by linarith) (by norm_num) ?_
  have h : 0 ≤ one * (2 * one - f) := mul_nonneg hpos.le (sub_nonneg.mpr hle)
  linarith [h, show one * (f + one) - (f - one) * one * 3 = 2 * (one * (2 * one - f)) by ring]

/-- The logarithm of the fraction lies between those of `1` and `2`. -/
theorem atanhSeries_bounds {s : ℕ} (hs : 0 < s) :
    0 ≤ 2 * atanhSeries 42 (atanhArgument (leadingFraction s)) ∧
      2 * atanhSeries 42 (atanhArgument (leadingFraction s)) ≤ logTwo := by
  obtain ⟨hlow, hhigh⟩ := leadingFraction_bounds hs
  have h0 := atanhArgument_nonneg hlow
  constructor
  · have hzero : atanhSeries 42 0 = 0 := by decide
    have := atanhSeries_mono 42 le_rfl h0
    linarith
  · exact mul_le_mul_of_nonneg_left
      (atanhSeries_mono 42 h0 (atanhArgument_le hlow hhigh)) (by norm_num)

/-- A number lies between the place of its leading digit and the next one. -/
theorem leadingPlace_bounds {s : ℕ} (hs : 0 < s) (e : ℤ) :
    (2 : ℚ) ^ (e + s.log2) ≤ s * 2 ^ e ∧ (s : ℚ) * 2 ^ e < 2 ^ (e + s.log2 + 1) := by
  have hlow : (2 : ℚ) ^ s.log2 ≤ s := by exact_mod_cast Nat.log2_self_le hs.ne'
  have hhigh : (s : ℚ) < 2 ^ (s.log2 + 1) := by exact_mod_cast Nat.lt_log2_self
  have hpos : (0 : ℚ) < 2 ^ e := zpow_pos (by norm_num) e
  constructor
  · rw [zpow_add₀ (by norm_num), mul_comm, zpow_natCast]
    exact mul_le_mul_of_nonneg_right hlow hpos.le
  · rw [add_assoc, zpow_add₀ (by norm_num), mul_comm]
    exact mul_lt_mul_of_pos_left (by exact_mod_cast hhigh) hpos

/-- With the same leading place the fractions are ordered as the numbers. -/
theorem leadingFraction_mono {s s' : ℕ} {e e' : ℤ} (hplace : e + s.log2 = e' + s'.log2)
    (h : (s : ℚ) * 2 ^ e ≤ s' * 2 ^ e') : leadingFraction s ≤ leadingFraction s' := by
  have hcross : (s : ℤ) * 2 ^ s'.log2 ≤ s' * 2 ^ s.log2 := by
    have hpos : (0 : ℚ) < 2 ^ (e + s.log2) := zpow_pos (by norm_num) _
    have hq : (s : ℚ) * 2 ^ s'.log2 ≤ s' * 2 ^ s.log2 := by
      refine le_of_mul_le_mul_right ?_ hpos
      calc (s : ℚ) * 2 ^ s'.log2 * 2 ^ (e + s.log2) = s * 2 ^ e * (2 ^ s'.log2 * 2 ^ s.log2) := by
            rw [zpow_add₀ (by norm_num), zpow_natCast]
            ring
        _ ≤ s' * 2 ^ e' * (2 ^ s'.log2 * 2 ^ s.log2) := mul_le_mul_of_nonneg_right h (by positivity)
        _ = s' * 2 ^ s.log2 * 2 ^ (e + s.log2) := by
            rw [hplace, zpow_add₀ (by norm_num), zpow_natCast]
            ring
    exact_mod_cast hq
  refine ediv_le_ediv_of_mul_le (two_pow_log2_pos s) (two_pow_log2_pos s') ?_
  change (s : ℤ) * one * ((2 ^ s'.log2 : ℕ) : ℤ) ≤ s' * one * ((2 ^ s.log2 : ℕ) : ℤ)
  rw [Nat.cast_pow, Nat.cast_pow, Nat.cast_two]
  calc (s : ℤ) * one * 2 ^ s'.log2 = s * 2 ^ s'.log2 * one := by ring
    _ ≤ s' * 2 ^ s.log2 * one := mul_le_mul_of_nonneg_right hcross scaledOne_pos.le
    _ = s' * one * 2 ^ s.log2 := by ring

/-- The logarithm grows with the number. -/
theorem logScaled_mono {s s' : ℕ} {e e' : ℤ} (hs : 0 < s) (hs' : 0 < s')
    (h : (s : ℚ) * 2 ^ e ≤ s' * 2 ^ e') : logScaled s e ≤ logScaled s' e' := by
  have hplace : e + s.log2 < e' + s'.log2 + 1 := by
    rw [← zpow_lt_zpow_iff_right₀ (by norm_num : (1 : ℚ) < 2)]
    exact ((leadingPlace_bounds hs e).1.trans h).trans_lt (leadingPlace_bounds hs' e').2
  rw [logScaled_eq, logScaled_eq]
  rcases (Int.lt_add_one_iff.mp hplace).eq_or_lt with heq | hlt
  · have hlow := (leadingFraction_bounds hs).1
    have hfractions := leadingFraction_mono heq h
    have hseries := atanhSeries_mono 42 (atanhArgument_nonneg hlow)
      (atanhArgument_mono hlow hfractions)
    rw [heq]
    linarith
  · -- the logarithm of the fraction jumps back here, but by no more than a whole logarithm of two
    have hstep : (e + s.log2 + 1) * logTwo ≤ (e' + s'.log2) * logTwo :=
      mul_le_mul_of_nonneg_right hlt logTwo_pos.le
    have h1 := (atanhSeries_bounds hs).2
    have h2 := (atanhSeries_bounds hs').1
    rw [add_mul, one_mul] at hstep
    linarith

/-! ### The exponential -/

/-- What the exponential of `t` is rounded from. -/
def expValue (t : ℤ) : ℚ :=
  (expSeries 36 (t % logTwo)).toNat * 2 ^ (t / logTwo - precision)

theorem expScaled_roundsTo (t : ℤ) : RoundsTo (expValue t) (expScaled t) := by
  have hrest : t - t / logTwo * logTwo = t % logTwo := by rw [Int.emod_def, mul_comm]
  unfold expScaled expValue
  dsimp only
  rw [hrest]
  exact ofDyadic_roundsTo false _ _

/-- Between the powers of two the series runs from `1` to `2` at most. -/
theorem expSeries_bounds {r : ℤ} (h0 : 0 ≤ r) (hr : r ≤ logTwo) :
    one ≤ expSeries 36 r ∧ expSeries 36 r ≤ 2 * one := by
  have hzero : one ≤ expSeries 36 0 := by decide
  have htwo : expSeries 36 logTwo ≤ 2 * one := by decide +kernel
  exact ⟨hzero.trans (expSeries_mono 36 le_rfl h0), (expSeries_mono 36 h0 hr).trans htwo⟩

theorem expValue_nonneg (t : ℤ) : 0 ≤ expValue t :=
  mul_nonneg (Nat.cast_nonneg _) (zpow_pos (by norm_num) _).le

/-- The exponential grows with its argument. -/
theorem expValue_mono {t u : ℤ} (htu : t ≤ u) : expValue t ≤ expValue u := by
  have hpos := logTwo_pos
  have ht0 := Int.emod_nonneg t hpos.ne'
  have hu0 := Int.emod_nonneg u hpos.ne'
  have ht1 := (Int.emod_lt_of_pos t hpos).le
  have hu1 := (Int.emod_lt_of_pos u hpos).le
  unfold expValue
  rcases (Int.ediv_le_ediv hpos htu).eq_or_lt with heq | hlt
  · rw [heq]
    have hrest : t % logTwo ≤ u % logTwo := by
      rw [Int.emod_def, Int.emod_def, heq]
      linarith
    refine mul_le_mul_of_nonneg_right ?_ (zpow_pos (by norm_num) _).le
    exact_mod_cast Int.toNat_le_toNat (expSeries_mono 36 ht0 hrest)
  · -- the series jumps back where a power of two begins, but by no more than the factor of two
    have htop : ((expSeries 36 (t % logTwo)).toNat : ℚ) ≤ 2 * one := by
      have h := (expSeries_bounds ht0 ht1).2
      have h0 := scaledOne_pos.le.trans (expSeries_bounds ht0 ht1).1
      rw [← Int.cast_natCast, Int.toNat_of_nonneg h0]
      exact_mod_cast h
    have hbottom : (one : ℚ) ≤ (expSeries 36 (u % logTwo)).toNat := by
      have h := (expSeries_bounds hu0 hu1).1
      rw [← Int.cast_natCast, Int.toNat_of_nonneg (scaledOne_pos.le.trans h)]
      exact_mod_cast h
    have hone : (0 : ℚ) ≤ one := by exact_mod_cast scaledOne_pos.le
    calc ((expSeries 36 (t % logTwo)).toNat : ℚ) * 2 ^ (t / logTwo - precision)
        ≤ 2 * one * 2 ^ (t / logTwo - precision) :=
          mul_le_mul_of_nonneg_right htop (zpow_pos (by norm_num) _).le
      _ = one * 2 ^ (t / logTwo - precision + 1) := by
          rw [zpow_add_one₀ (by norm_num)]
          ring
      _ ≤ one * 2 ^ (u / logTwo - precision) :=
          mul_le_mul_of_nonneg_left (zpow_le_zpow_right₀ (by norm_num) (by linarith)) hone
      _ ≤ (expSeries 36 (u % logTwo)).toNat * 2 ^ (u / logTwo - precision) :=
          mul_le_mul_of_nonneg_right hbottom (zpow_pos (by norm_num) _).le

/-! ### Powers -/

/-- The logarithm of a power, scaled, for an exponent `s' · 2 ^ e'`. -/
def powArgument (s : ℕ) (e : ℤ) (s' : ℕ) (e' : ℤ) : ℤ :=
  logScaled s e * s' * Nat.pow 2 e'.toNat / Nat.pow 2 (-e').toNat

/-- The power of a positive double for an exponent that is not negative. -/
theorem pow_roundsTo {x y : Float} {s s' : ℕ} {e e' : ℤ}
    (hx : shape x = .finite false s e) (hs : 0 < s) (hy : shape y = .finite false s' e') :
    RoundsTo (expValue (powArgument s e s' e')) (pow x y) := by
  have hpow : pow x y = expScaled (powArgument s e s' e') := by
    unfold pow powArgument
    rw [hx, hy]
    simp only [hs.ne', Bool.false_eq_true, if_false]
  rw [hpow]
  exact expScaled_roundsTo _

theorem powArgument_mono {s₁ s₂ s' : ℕ} {e₁ e₂ : ℤ} (e' : ℤ) (h₁ : 0 < s₁) (h₂ : 0 < s₂)
    (h : (s₁ : ℚ) * 2 ^ e₁ ≤ s₂ * 2 ^ e₂) : powArgument s₁ e₁ s' e' ≤ powArgument s₂ e₂ s' e' := by
  have hlog := logScaled_mono h₁ h₂ h
  refine Int.ediv_le_ediv (by exact_mod_cast Nat.two_pow_pos _) ?_
  exact mul_le_mul_of_nonneg_right (mul_le_mul_of_nonneg_right hlog (Int.natCast_nonneg _))
    (Int.natCast_nonneg _)

/-- A power of positive doubles is the rounding of some `q ≥ 0`. -/
theorem exists_pow_roundsTo {x y : Float} (hx : x.isFinite = true) (hx0 : 0 < value x)
    (hy : y.isFinite = true) (hy0 : 0 < value y) : ∃ q, 0 ≤ q ∧ RoundsTo q (pow x y) := by
  obtain ⟨s, e, hs, hshape, -⟩ := shape_of_pos hx hx0
  obtain ⟨s', e', -, hshape', -⟩ := shape_of_pos hy hy0
  exact ⟨_, expValue_nonneg _, pow_roundsTo hshape hs hshape'⟩

/-- Powers of positive doubles grow with the base. -/
theorem pow_mono {x₁ x₂ y : Float} (h₁ : x₁.isFinite = true) (h₂ : x₂.isFinite = true)
    (hpos : 0 < value x₁) (hle : value x₁ ≤ value x₂) (hy : y.isFinite = true) (hy0 : 0 < value y) :
    pow x₁ y ≤ pow x₂ y := by
  obtain ⟨s₁, e₁, hs₁, hshape₁, hv₁⟩ := shape_of_pos h₁ hpos
  obtain ⟨s₂, e₂, hs₂, hshape₂, hv₂⟩ := shape_of_pos h₂ (hpos.trans_le hle)
  obtain ⟨s', e', -, hshape', -⟩ := shape_of_pos hy hy0
  rw [hv₁, hv₂] at hle
  exact (pow_roundsTo hshape₁ hs₁ hshape').le (pow_roundsTo hshape₂ hs₂ hshape')
    (expValue_mono (powArgument_mono e' hs₁ hs₂ hle))

end DesignTokens.Number

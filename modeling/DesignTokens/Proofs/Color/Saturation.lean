import DesignTokens.Proofs.Color.RoundTrip
import DesignTokens.Proofs.Number.Units

/-!
# The saturation of a colour in doubles

The saturation is the quotient of the range of the channels and a divisor, both of which depend on
the maximum and the minimum of the channels alone.  Over `ℚ` the divisor is no less than the range.
In doubles it is above the range as long as no channel is 0 or 255 (`saturation_le_of_between`).
With a channel 0 or 255 the two are equal over `ℚ`, and rounding decides: the saturation is above
100 exactly if the divisor comes out below the range (`saturation_le_iff_range_le`).

Range and divisor are integer multiples of `2 ^ -60`, and so this is decided for all such channels
in integers (`rangeUnits`, `divisorUnits`).  `overshoots` lists the channels for which it happens.
-/

namespace DesignTokens

open Number

namespace Rgb

/-! ### Bytes as fractions -/

/-- `n / 255` as a double. -/
def part (n : ℕ) : Float :=
  (UInt8.ofNat n).toFloat / 255.0

theorem part_toNat (byte : UInt8) : part byte.toNat = byte.toFloat / 255.0 := by
  rw [part, UInt8.ofNat_toNat]

section Part

variable {m n : ℕ}

theorem share_ofNat (hn : n < 256) : share (UInt8.ofNat n) = n / 255 := by
  rw [share, UInt8.toNat_ofNat_of_lt' hn]

theorem close_part (hn : n < 256) : Close (2 ^ (-53 : ℤ)) (part n) (n / 255) := by
  rw [← share_ofNat hn]
  exact close_share _

theorem part_bounded (n : ℕ) : Bounded 1 (part n) :=
  (Contrast.fraction_spec _).1

theorem value_part_le_iff (hm : m < 256) (hn : n < 256) :
    value (part m) ≤ value (part n) ↔ m ≤ n := by
  rw [part, part, value_le_iff, share_ofNat hm, share_ofNat hn,
    div_le_div_iff_of_pos_right (by norm_num), Nat.cast_le]

theorem part_le_iff (hm : m < 256) (hn : n < 256) : part m ≤ part n ↔ m ≤ n := by
  rw [le_iff_value_le (part_bounded m).finite (part_bounded n).finite, value_part_le_iff hm hn]

theorem max_part (hm : m < 256) (hn : n < 256) : max (part m) (part n) = part (max m n) := by
  have hmax : max (part m) (part n) = if part m ≤ part n then part n else part m := rfl
  rw [hmax]
  split_ifs with h
  · rw [max_eq_right ((part_le_iff hm hn).mp h)]
  · rw [max_eq_left (not_le.mp (mt (part_le_iff hm hn).mpr h)).le]

theorem min_part (hm : m < 256) (hn : n < 256) : min (part m) (part n) = part (min m n) := by
  have hmin : min (part m) (part n) = if part m ≤ part n then part m else part n := rfl
  rw [hmin]
  split_ifs with h
  · rw [min_eq_left ((part_le_iff hm hn).mp h)]
  · rw [min_eq_right (not_le.mp (mt (part_le_iff hm hn).mpr h)).le]

/-- The range is `0` exactly for equal bytes. -/
theorem range_beq_zero_iff (hm : m < 256) (hn : n < 256) (hmn : m ≤ n) :
    (part n - part m == 0.0) = true ↔ m = n := by
  have hle := (value_part_le_iff hm hn).mpr hmn
  have hn1 : value (part n) ≤ 1 := by simpa using (part_bounded n).le
  obtain ⟨hrange, hvalue⟩ :=
    (sub_roundsTo (part_bounded n).finite (part_bounded m).finite).bounded (m := 1)
      (sub_nonneg.mpr hle) (by push_cast; linarith [(part_bounded m).nonneg]) (by norm_num)
  rw [beq_iff_value_eq hrange.finite value_zero.1.finite, value_zero.2, hvalue]
  constructor
  · intro hzero
    by_contra hne
    have hlt : value (part m) < value (part n) :=
      not_le.mp (mt (value_part_le_iff hn hm).mp (by omega))
    exact absurd hzero (rounded_sub_pos (part_bounded m).finite (part_bounded n).finite hlt).ne'
  · rintro rfl
    rw [sub_self, rounded_zero]

end Part

section Range

variable {greatest least : Float}

/-- The range of different doubles from `0` to `1`. -/
theorem range_spec (hgreatest : Bounded 1 greatest) (hleast : Bounded 1 least)
    (hlt : value least < value greatest) :
    (greatest - least).isFinite = true ∧ 0 < value (greatest - least) ∧
    value (greatest - least) ≤ 1 ∧
      value (greatest - least) = rounded (value greatest - value least) := by
  have h1 : value greatest ≤ 1 := by simpa using hgreatest.le
  obtain ⟨hrange, hvalue⟩ := (sub_roundsTo hgreatest.finite hleast.finite).bounded (m := 1)
    (sub_nonneg.mpr hlt.le) (by push_cast; linarith [hleast.nonneg]) (by norm_num)
  refine ⟨hrange.finite, ?_, by simpa using hrange.le, hvalue⟩
  rw [hvalue]
  exact rounded_sub_pos hleast.finite hgreatest.finite hlt

end Range

/-! ### Range, divisor and quotient -/

/-- The lightness of a greatest and a least channel. -/
def lightness (greatest least : ℕ) : Float :=
  (part greatest + part least) / 2.0

/-- What the range is divided by. -/
def divisor (greatest least : ℕ) : Float :=
  1.0 - (2.0 * lightness greatest least - 1.0).abs

/-- The saturation of a greatest and a least channel. -/
def saturation (greatest least : ℕ) : Float :=
  (part greatest - part least) / divisor greatest least

/-! ### Close to the saturation over ℚ -/

section Saturation

variable {top bottom : ℚ}

/-- The saturation over `ℚ` is in `[1 / 255, 1]`. -/
theorem exact_saturation_bounds (h0 : 0 ≤ bottom) (hgap : bottom + 1 / 255 ≤ top) (h1 : top ≤ 1) :
    1 / 255 ≤ (top - bottom) / (1 - |2 * ((top + bottom) / 2) - 1|) ∧
      (top - bottom) / (1 - |2 * ((top + bottom) / 2) - 1|) ≤ 1 := by
  have hrange := (Hsl.spread_of_range h0 (by linarith) h1).1
  have hpos : 0 < 1 - |2 * ((top + bottom) / 2) - 1| := by linarith
  have hle : 1 - |2 * ((top + bottom) / 2) - 1| ≤ 1 := sub_le_self 1 (abs_nonneg _)
  refine ⟨?_, (div_le_one hpos).mpr hrange⟩
  rw [le_div_iff₀ hpos]
  linarith

/-- With no channel 0 or 255, it is at most `1 - 2 / 255`. -/
theorem exact_saturation_le (h0 : 1 / 255 ≤ bottom) (hlt : bottom < top) (h1 : top ≤ 254 / 255) :
    (top - bottom) / (1 - |2 * ((top + bottom) / 2) - 1|) ≤ 253 / 255 := by
  have hoff : |2 * ((top + bottom) / 2) - 1| ≤ 1 - (top - bottom) - 2 / 255 :=
    abs_le.mpr ⟨by linarith, by linarith⟩
  have hle : 1 - |2 * ((top + bottom) / 2) - 1| ≤ 1 := sub_le_self 1 (abs_nonneg _)
  rw [div_le_iff₀ (by linarith)]
  linarith

end Saturation

section Percent

variable {greatest least : ℕ}

theorem shares_apart (hlt : least < greatest) (hbyte : greatest < 256) :
    (0 : ℚ) ≤ least / 255 ∧ (least / 255 + 1 / 255 : ℚ) ≤ greatest / 255 ∧
    (greatest / 255 : ℚ) ≤ 1 := by
  have hgap : (least : ℚ) + 1 ≤ greatest := by exact_mod_cast hlt
  have htop : (greatest : ℚ) ≤ 255 := by exact_mod_cast Nat.le_of_lt_succ hbyte
  exact ⟨by positivity, by linarith, by linarith⟩

/-- The saturation in percent is close to the one over `ℚ`. -/
theorem close_saturation_percent (hlt : least < greatest) (hbyte : greatest < 256) :
    Close (2 ^ (-32 : ℤ)) (saturation greatest least * 100.0)
      ((greatest / 255 - least / 255 : ℚ) /
        (1 - |2 * ((greatest / 255 + least / 255 : ℚ) / 2) - 1|) * 100) := by
  have hhundred : Close 0 100.0 100 := Close.literal 100 (by decide)
  obtain ⟨h0, hgap, h1⟩ := shares_apart hlt hbyte
  have hgreatest := close_part hbyte
  have hleast := close_part (hlt.trans hbyte)
  have hl := close_lightness hgreatest hleast h0 (by linarith) h1
  have hs := close_saturation hgreatest hleast hl h0 hgap h1
  obtain ⟨hs0, hs1⟩ := exact_saturation_bounds h0 hgap h1
  have hpercent :=
    hs.mul hhundred 1 100 (abs_le.mpr ⟨by linarith, hs1⟩) (abs_of_pos (by norm_num)).le
      7 (by norm_num)
  exact hpercent.weaken (by norm_num)

/-- The saturation of a colour that is not grey is positive, and at most 100 up to an error. -/
theorem saturation_bounds (hlt : least < greatest) (hbyte : greatest < 256) :
    0 < value (saturation greatest least * 100.0) ∧
      value (saturation greatest least * 100.0) ≤ 100 + 2 ^ (-32 : ℤ) := by
  obtain ⟨h0, hgap, h1⟩ := shares_apart hlt hbyte
  obtain ⟨hs0, hs1⟩ := exact_saturation_bounds h0 hgap h1
  obtain ⟨hlow, hhigh⟩ := abs_le.mp (close_saturation_percent hlt hbyte).near
  have hsmall : (2 : ℚ) ^ (-32 : ℤ) < 100 / 255 := by norm_num
  constructor <;> linarith

/-- With no channel 0 or 255, there is room for the errors. -/
theorem saturation_le_of_between (h0 : 0 < least) (hlt : least < greatest) (h1 : greatest < 255) :
    value (saturation greatest least * 100.0) ≤ 100 := by
  have hbottom : (1 / 255 : ℚ) ≤ least / 255 := by
    have hcast : (1 : ℚ) ≤ least := by exact_mod_cast h0
    linarith
  have htop : (greatest / 255 : ℚ) ≤ 254 / 255 := by
    have hcast : (greatest : ℚ) ≤ 254 := by exact_mod_cast Nat.le_of_lt_succ h1
    linarith
  obtain ⟨-, hgap, -⟩ := shares_apart hlt (by omega)
  have hexact := exact_saturation_le hbottom (by linarith) htop
  have hhigh := (abs_le.mp (close_saturation_percent hlt (by omega)).near).2
  have hsmall : (2 : ℚ) ^ (-32 : ℤ) < 200 / 255 := by norm_num
  linarith

/-- The divisor is far above zero, as is the range. -/
theorem divisor_spec (hlt : least < greatest) (hbyte : greatest < 256) :
    (divisor greatest least).isFinite = true ∧ 1 / 256 ≤ value (divisor greatest least) := by
  obtain ⟨h0, hgap, h1⟩ := shares_apart hlt hbyte
  have hl := close_lightness (close_part hbyte) (close_part (hlt.trans hbyte)) h0 (by linarith) h1
  have hdivisor : Close (2 ^ (-48 : ℤ)) (divisor greatest least) _ :=
    close_divisor hl h0 (by linarith) h1
  have hrange := (Hsl.spread_of_range h0 (by linarith) h1).1
  have hlow := (abs_le.mp hdivisor.near).1
  have hsmall : (2 : ℚ) ^ (-48 : ℤ) ≤ 1 / 255 - 1 / 256 := by norm_num
  exact ⟨hdivisor.finite, by linarith⟩

/-- The saturation is above 100 exactly if the divisor is below the range. -/
theorem saturation_le_iff_range_le (hlt : least < greatest) (hbyte : greatest < 256) :
    saturation greatest least * 100.0 ≤ 100.0 ↔
      value (part greatest - part least) ≤ value (divisor greatest least) := by
  have hhundred : Close 0 100.0 100 := Close.literal 100 (by decide)
  obtain ⟨hdivisor, hleast⟩ := divisor_spec hlt hbyte
  have hpos : 0 < value (divisor greatest least) := by linarith
  obtain ⟨hrange, -⟩ := range_spec (part_bounded greatest) (part_bounded least)
    (not_le.mp (mt (value_part_le_iff hbyte (hlt.trans hbyte)).mp (by omega)))
  have hpercent := (close_saturation_percent hlt hbyte).finite
  have hsaturation := (isFinite_of_mul hpercent).1
  have hvalue :
      value (saturation greatest least) =
        rounded (value (part greatest - part least) / value (divisor _ _)) :=
    (div_roundsTo hrange hdivisor hpos.ne').value_eq hsaturation
  rw [le_iff_value_le hpercent hhundred.finite,
    (mul_roundsTo hsaturation hhundred.finite).value_eq hpercent, hhundred.value_eq]
  constructor
  · intro hle
    by_contra habove
    have hnormal : -1074 < lastPlace (value (divisor greatest least)) := by
      by_contra hplace
      have hbound := abs_lt_two_zpow_lastPlace (value (divisor greatest least))
      rw [abs_of_pos hpos] at hbound
      have hpower : (2 : ℚ) ^ (lastPlace (value (divisor greatest least)) + 53) ≤ 2 ^ (-8 : ℤ) :=
        zpow_le_zpow_right₀ (by norm_num) (by omega)
      norm_num at hpower
      linarith
    have hone := le_rounded_div (onGrid_value hrange) (onGrid_value hdivisor) hpos hnormal
      (not_le.mp habove)
    rw [← hvalue] at hone
    -- one ulp above `1` is more than one ulp above 100, after the multiplication
    have hmore : 100 + 2 ^ (-46 : ℤ) ≤ rounded (value (saturation greatest least) * 100) := by
      refine le_rounded ⟨100 * 2 ^ 46 + 1, -46, by norm_num, by norm_num, by norm_num⟩ ?_
      norm_num at hone ⊢
      linarith
    have hplace : (0 : ℚ) < 2 ^ (-46 : ℤ) := by norm_num
    linarith
  · intro hle
    have hone : value (saturation greatest least) ≤ 1 :=
      hvalue ▸ rounded_le onGrid_one ((div_le_one hpos).mpr hle)
    exact rounded_le ⟨100, 0, by norm_num, by norm_num, by norm_num⟩ (by linarith)

end Percent

/-! ### Integer units -/

section Units

/-- `n / 255` in units of `2 ^ -60`. -/
def units (n : ℕ) : ℕ :=
  roundDiv .even (n * Nat.pow 2 (60 - n.log2)) 255 * Nat.pow 2 n.log2

/-- The range of two channels in units. -/
def rangeUnits (greatest least : ℕ) : ℕ :=
  roundUnits (units greatest - units least)

/-- The divisor of two channels in units. -/
def divisorUnits (greatest least : ℕ) : ℕ :=
  let sum := roundUnits (units greatest + units least)
  roundUnits (Nat.pow 2 60 - roundUnits (sum - Nat.pow 2 60 + (Nat.pow 2 60 - sum)))

/-- In such units a byte has at most 53 binary digits. -/
theorem units_digits :
    ∀ n < 255, 0 < n →
      n.log2 ≤ 60 ∧ 2 ^ 52 * 255 ≤ n * 2 ^ (60 - n.log2) ∧
      n * 2 ^ (60 - n.log2) < 2 ^ 53 * 255 := by
  decide +kernel

variable {n greatest least : ℕ}

theorem counts_part (hn : n < 256) : Counts 60 (part n) (units n) := by
  have hvalue : value (part n) = rounded (n / 255) := by
    rw [part, (Contrast.fraction_spec _).2, UInt8.toNat_ofNat_of_lt' hn]
  refine ⟨(part_bounded n).finite, hvalue.trans ?_⟩
  rcases Nat.eq_zero_or_pos n with rfl | hpos
  · have hunits : units 0 = 0 := by decide +kernel
    rw [hunits, Nat.cast_zero, zero_div, zero_div, rounded_zero]
  · rcases Nat.lt_or_eq_of_le (Nat.le_of_lt_succ hn) with hlt | rfl
    · obtain ⟨hlog, hlow, hhigh⟩ := units_digits n hlt hpos
      have hscale : (2 : ℚ) ^ 60 = 2 ^ (60 - n.log2) * 2 ^ n.log2 := by
        rw [← pow_add, Nat.sub_add_cancel hlog]
      have hround := rounded_div (d := 255) (by norm_num) (by omega) hlow hhigh
      rw [Nat.cast_ofNat] at hround
      rw [hround, hscale, units, Nat.cast_mul]
      show _ = _ * ((2 ^ n.log2 : ℕ) : ℚ) / _
      rw [Nat.cast_pow, Nat.cast_ofNat, mul_div_mul_right _ _ (by positivity)]
      rfl
    · have hunits : units 255 = 2 ^ 60 := by decide +kernel
      rw [hunits]
      norm_num
      exact rounded_eq_self onGrid_one

theorem units_le (hn : n < 256) : units n ≤ 2 ^ 60 := by
  have hle : value (part n) ≤ 1 := by simpa using (part_bounded n).le
  rw [(counts_part hn).value_eq, div_le_one (by positivity)] at hle
  exact_mod_cast hle

theorem counts_range (hlt : least < greatest) (hbyte : greatest < 256) :
    Counts 60 (part greatest - part least) (rangeUnits greatest least) := by
  have hgreatest := counts_part hbyte
  have hleast := counts_part (hlt.trans hbyte)
  refine hgreatest.sub hleast (by norm_num) ((units_le hbyte).trans_lt (by norm_num)) ?_
  have hle := (value_part_le_iff (hlt.trans hbyte) hbyte).mpr hlt.le
  rw [hgreatest.value_eq, hleast.value_eq, div_le_div_iff_of_pos_right (by positivity)] at hle
  exact_mod_cast hle

theorem sumUnits_le (hgreatest : greatest < 256) (hleast : least < 256) :
    units greatest + units least ≤ 2 ^ 61 := by
  have hg := units_le hgreatest
  have hl := units_le hleast
  omega

/-- Halving and doubling lose nothing, so that the divisor comes from the sum of the channels. -/
theorem counts_double_lightness (hgreatest : greatest < 256) (hleast : least < 256) :
    Counts 60 (2.0 * lightness greatest least) (roundUnits (units greatest + units least)) := by
  have htwo : Close 0 2.0 2 := Close.literal 2 (by decide)
  have hle := sumUnits_le hgreatest hleast
  have hsum := (counts_part hgreatest).add (counts_part hleast) (by norm_num)
    (hle.trans_lt (by norm_num))
  have hself := hsum.roundUnits_eq (by norm_num)
  have hsmall := (roundUnits_le hle).trans_lt (by norm_num : 2 ^ 61 < 2 ^ 64)
  -- the sum has the digits of a double, which halving and doubling do not change
  generalize roundUnits (units greatest + units least) = sum at hsum hself hsmall ⊢
  have hhalf : Counts 61 (lightness greatest least) (roundUnits sum) := by
    have hround := div_roundsTo hsum.finite htwo.finite (by rw [htwo.value_eq]; norm_num)
    refine Counts.of_roundsTo hround ?_ (by norm_num) hsmall
    rw [hsum.value_eq, htwo.value_eq, div_div]
    norm_num
  rw [hself] at hhalf
  have hdouble := Counts.of_roundsTo (k := 60) (m := sum) (mul_roundsTo htwo.finite hhalf.finite)
    (by rw [htwo.value_eq, hhalf.value_eq]; ring) (by norm_num) hsmall
  rwa [hself] at hdouble

theorem counts_divisor (hgreatest : greatest < 256) (hleast : least < 256) :
    Counts 60 (divisor greatest least) (divisorUnits greatest least) := by
  have hone : Counts 60 1.0 (Nat.pow 2 60) := ⟨value_unit.1.finite, by rw [value_unit.2]; norm_num⟩
  have hdouble := counts_double_lightness hgreatest hleast
  have hle := roundUnits_le (sumUnits_le hgreatest hleast)
  unfold divisor divisorUnits
  generalize roundUnits (units greatest + units least) = sum at hdouble hle ⊢
  have hdistance : sum - Nat.pow 2 60 + (Nat.pow 2 60 - sum) ≤ 2 ^ 60 := by
    rw [Nat.pow_eq]
    omega
  have hoff := hdouble.abs_sub hone (by norm_num) (hle.trans_lt (by norm_num)) (by norm_num)
  exact hone.sub hoff (by norm_num) (by norm_num) (roundUnits_le hdistance)

/-- Range and divisor are compared in integer units. -/
theorem range_le_divisor_iff (hlt : least < greatest) (hbyte : greatest < 256) :
    value (part greatest - part least) ≤ value (divisor greatest least) ↔
      rangeUnits greatest least ≤ divisorUnits greatest least := by
  rw [(counts_range hlt hbyte).value_eq, (counts_divisor hbyte (hlt.trans hbyte)).value_eq,
    div_le_div_iff_of_pos_right (by positivity), Nat.cast_le]

end Units

/-! ### Colours with a saturation above 100 -/

/-- Whether `n` is in one of the intervals `[first, last]`. -/
def inRuns (runs : List (ℕ × ℕ)) (n : ℕ) : Bool :=
  runs.any fun run => run.1 ≤ n && n ≤ run.2

/-- The maxima for which a colour with minimum 0 has a saturation above 100. -/
def darkRuns : List (ℕ × ℕ) :=
  [(1, 4), (9, 11), (17, 20), (25, 27), (33, 36), (41, 42), (49, 52), (57, 58), (66, 69), (82, 85),
    (98, 101), (114, 117)]

/-- The minima for which a colour with maximum 255 has a saturation above 100. -/
def paleRuns : List (ℕ × ℕ) :=
  [(9, 11), (24, 27), (41, 42), (55, 58), (86, 89), (118, 121), (148, 155), (180, 187),
    (212, 219), (244, 251)]

/-- Whether the saturation of a maximum and a minimum of the channels is rounded above 100. -/
def overshoots (greatest least : ℕ) : Bool :=
  least == 0 && inRuns darkRuns greatest || greatest == 255 && inRuns paleRuns least

theorem overshoots_self (n : ℕ) : overshoots n n = false := by
  by_cases hempty : n = 0
  · subst hempty
    rfl
  by_cases hfull : n = 255
  · subst hfull
    rfl
  rw [overshoots, beq_false_of_ne hempty, beq_false_of_ne hfull]
  rfl

theorem rangeUnits_le_of_empty_channel :
    ∀ n < 256, 0 < n → (rangeUnits n 0 ≤ divisorUnits n 0 ↔ inRuns darkRuns n = false) := by
  decide +kernel

theorem rangeUnits_le_of_full_channel :
    ∀ n < 255, (rangeUnits 255 n ≤ divisorUnits 255 n ↔ inRuns paleRuns n = false) := by
  decide +kernel

/-- The saturation is at most 100, but for the listed channels. -/
theorem saturation_le_iff {greatest least : ℕ} (hlt : least < greatest) (hbyte : greatest < 256) :
    saturation greatest least * 100.0 ≤ 100.0 ↔ overshoots greatest least = false := by
  unfold overshoots
  rcases Nat.eq_zero_or_pos least with rfl | hpos
  · have hpale : inRuns paleRuns 0 = false := by decide
    rw [saturation_le_iff_range_le hlt hbyte, range_le_divisor_iff hlt hbyte,
      rangeUnits_le_of_empty_channel greatest hbyte hlt]
    simp [hpale]
  · rcases Nat.lt_or_eq_of_le (Nat.le_of_lt_succ hbyte) with hbetween | rfl
    · have hhundred : Close 0 100.0 100 := Close.literal 100 (by decide)
      have hle := saturation_le_of_between hpos hlt hbetween
      rw [le_iff_value_le (close_saturation_percent hlt hbyte).finite hhundred.finite,
        hhundred.value_eq]
      simp [hle, hpos.ne', hbetween.ne]
    · rw [saturation_le_iff_range_le hlt hbyte, range_le_divisor_iff hlt hbyte,
        rangeUnits_le_of_full_channel least hlt]
      simp [hpos.ne']

end Rgb

end DesignTokens

import DesignTokens.Proofs.Color.Wheel
import DesignTokens.Proofs.Number.Remainder

/-!
# From hue, saturation and lightness to channels in doubles

The conversion of a colour to channels is followed along the same formula over `ℚ`.  Percentages,
the spread of the channels and the depth of each are off by a few roundings (`close_fraction`,
`close_spread`, `close_depth`); reducing a position modulo 12 or a hue modulo 360 does not change
the wave (`position_spec`, `wave_wrap`), even where the remainder is rounded up to the modulus.  So
a channel is close to what the rational components of its colour give (`Shows.close_channel`), and
one that is close to the fraction of a byte is rounded to that byte (`toByte_eq_of_close`).
-/

namespace DesignTokens

open Number

namespace Hsl

/-! ### Bytes -/

/-- A channel value that is close to the fraction of a byte is rounded to that byte. -/
theorem toByte_eq_of_close {v : Float} {byte : UInt8}
    (h : Close (2 ^ (-20 : ℤ)) v (byte.toNat / 255)) : toByte v = byte := by
  have hbyte : byte.toNat < 256 := byte.toNat_lt
  have hcast : (byte.toNat : ℚ) ≤ 255 := by exact_mod_cast Nat.le_of_lt_succ hbyte
  have h0 : (0 : ℚ) ≤ byte.toNat := Nat.cast_nonneg _
  have hsmall : (2 : ℚ) ^ (-20 : ℤ) ≤ 1 / 1000000 := by norm_num
  obtain ⟨hlow, hhigh⟩ := abs_le.mp h.near
  have hv : |value v| ≤ 2 := abs_le.mpr ⟨by linarith, by linarith⟩
  have hround : |rounded (value v * 255) - value v * 255| ≤ 1 / 1000 := by
    refine (abs_rounded_sub_le_of_abs_le (k := 9) ?_ (by norm_num)).trans (by norm_num)
    rw [abs_le]
    norm_num
    constructor <;> linarith
  obtain ⟨hlow', hhigh'⟩ := abs_le.mp hround
  -- all errors together are below one half, where the nearest integer changes
  rw [← UInt8.toNat_inj, toNat_toByte h.finite hv, awayFromZero_eq_of_near (n := byte.toNat)]
  · rw [Int.toNat_natCast]
    omega
  · rw [Int.cast_natCast, abs_lt]
    constructor <;> linarith

/-! ### Percentages -/

/-- A percentage is read back as the fraction it was made from, but for a few roundings. -/
theorem close_fraction {x : Float} {error q : ℚ} (h : Close error x q) (h0 : 0 ≤ q) (h1 : q ≤ 1)
    (herror : error ≤ 1 / 8) : Close (error + 2 ^ (-51 : ℤ)) (fraction (x * 100.0)) q := by
  have hhundred : Close 0 100.0 100 := Close.literal 100 (by decide)
  have hpercent :=
    h.mul hhundred 1 100 (abs_le.mpr ⟨by linarith, h1⟩) (abs_of_pos (by norm_num)).le 7
      ⟨by norm_num; linarith, by norm_num, by norm_num⟩
  -- the exact percentage is between the ends, and the double comes no further from it by the clamp
  have hclamp := hpercent.clamp value_zero.1.finite hhundred.finite (by rw [value_zero.2]; linarith)
    (by rw [hhundred.value_eq]; linarith)
  have hdiv := hclamp.div hhundred 1 100
    (by rw [mul_div_cancel_right₀ _ (by norm_num)]; exact abs_le.mpr ⟨by linarith, h1⟩)
    (by norm_num) (by norm_num) 1
    ⟨by norm_num; linarith, by norm_num, by norm_num⟩
  rw [mul_div_cancel_right₀ _ (by norm_num)] at hdiv
  unfold fraction finiteOrZero
  rw [if_pos hpercent.finite]
  refine hdiv.weaken ?_
  norm_num
  linarith

theorem close_spread {s l : Float} {s' l' : ℚ} (hs : Close (2 ^ (-36 : ℤ)) s s')
    (hl : Close (2 ^ (-49 : ℤ)) l l') (hs0 : 0 ≤ s') (hs1 : s' ≤ 1) (hl0 : 0 ≤ l') (hl1 : l' ≤ 1) :
    Close (2 ^ (-35 : ℤ)) (spread s l) (spread s' l') := by
  have hrest := Close.one.sub hl 1 (abs_le.mpr ⟨by linarith, by linarith⟩) 1 (by norm_num)
  have hmin : Close (2 ^ (-48 : ℤ)) _ _ := (hl.min hrest).weaken (by norm_num)
  have hmul := hs.mul hmin 1 1 (abs_le.mpr ⟨by linarith, hs1⟩)
    (abs_le.mpr ⟨le_min (by linarith) (by linarith), (min_le_left _ _).trans hl1⟩) 1 (by norm_num)
  exact hmul.weaken (by norm_num)

/-! ### Positions on the wheel -/

theorem close_depth {k : Float} (hk : Bounded 12 k) :
    Close (2 ^ (-49 : ℤ)) (depth k) (depth (value k)) := by
  have h0 := hk.nonneg
  have h12 : value k ≤ 12 := by simpa using hk.le
  have hself := Close.of_value_eq hk.finite rfl
  have hthree : Close 0 3 3 := Close.numeral 3 (by decide)
  have hnine : Close 0 9 9 := Close.numeral 9 (by decide)
  have hneg : Close 0 (-1 : Float) (-1) := by
    obtain ⟨hfinite, hvalue⟩ := value_neg value_one.1
    exact Close.of_value_eq hfinite (by rw [hvalue, value_one.2])
  have hrise := hself.sub hthree 9 (abs_le.mpr ⟨by linarith, by linarith⟩) 4 (by norm_num)
  have hfall := hnine.sub hself 9 (abs_le.mpr ⟨by linarith, by linarith⟩) 4 (by norm_num)
  exact (((hrise.min hfall).min Close.one).max hneg).weaken (by norm_num)

/-- The position of a channel is `start + hue / 30` less a multiple of 12, up to rounding. -/
theorem position_spec {start hue : Float} (hstart : Bounded 8 start) (hhue : Bounded 360 hue) :
    Bounded 12 (position remainder start hue) ∧ ∃ n : ℤ,
      |value (position remainder start hue) + 12 * n - (value start + value hue / 30)| ≤
        2 ^ (-47 : ℤ) := by
  have hstart0 := hstart.nonneg
  have hstart8 : value start ≤ 8 := by simpa using hstart.le
  have hhue0 := hhue.nonneg
  have hhue360 : value hue ≤ 360 := by simpa using hhue.le
  have hthirty : Close 0 30 30 := Close.numeral 30 (by decide)
  have htwelve : Close 0 12 12 := Close.numeral 12 (by decide)
  have hpos : 0 < value 12 := by rw [htwelve.value_eq]; norm_num
  have hquotient := (Close.of_value_eq hhue.finite rfl).div hthirty 12 30
    (abs_le.mpr ⟨by linarith, by linarith⟩) (by norm_num) (by norm_num) 4 (by norm_num)
  have hsum := (Close.of_value_eq hstart.finite rfl).add hquotient 20
    (abs_le.mpr ⟨by linarith, by linarith⟩) 5 (by norm_num)
  -- the remainder of a negative number would be negative, so it matters that the sum is not, not
  -- even by rounding
  have hsum0 : 0 ≤ value (start + hue / 30) := by
    have hround := div_roundsTo hhue.finite hthirty.finite (by rw [hthirty.value_eq]; norm_num)
    rw [hthirty.value_eq] at hround
    obtain ⟨hbounded, -⟩ :=
      hround.bounded (m := 12) (by linarith) (by push_cast; linarith) (by norm_num)
    exact (hstart.add hbounded (by norm_num)).1.nonneg
  obtain ⟨hfinite, hfract, -⟩ := remainder_of_nonneg hsum.finite hsum0 htwelve.finite hpos
  obtain ⟨n, hn⟩ := remainder_eq_sub hsum.finite hsum0 htwelve.finite hpos
  rw [htwelve.value_eq] at hfract hn
  have hfract0 := Int.fract_nonneg (value (start + hue / 30) / 12)
  have hfract1 := Int.fract_lt_one (value (start + hue / 30) / 12)
  refine ⟨⟨hfinite, ?_, ?_⟩, n, ?_⟩
  · show 0 ≤ value (remainder (start + hue / 30) 12)
    linarith
  · show value (remainder (start + hue / 30) 12) ≤ (12 : ℕ)
    push_cast
    linarith
  · show |value (remainder (start + hue / 30) 12) + 12 * n - _| ≤ _
    rw [hn, sub_add_cancel]
    exact hsum.near.trans (by norm_num)

/-- The depth of a channel in doubles is close to `wave (start + hue / 30)`. -/
theorem close_depth_position {start hue : Float} (hstart : Bounded 8 start)
    (hhue : Bounded 360 hue) :
    Close (2 ^ (-46 : ℤ)) (depth (position remainder start hue))
      (wave (value start + value hue / 30)) := by
  obtain ⟨hposition, n, hn⟩ := position_spec hstart hhue
  have hdepth := close_depth hposition
  rw [depth_eq_wave hposition.nonneg (by simpa using hposition.le), ← wave_add_turns _ n] at hdepth
  exact (hdepth.trans ((abs_wave_sub_le _ _).trans hn)).weaken (by norm_num)

/-- Reducing a hue modulo 360 does not change the wave. -/
theorem wave_wrap {hue : Float} (hfinite : hue.isFinite = true) (h0 : 0 ≤ value hue) (start : ℚ) :
    Bounded 360 (wrap (finiteOrZero hue) 360.0) ∧
      wave (start + value (wrap (finiteOrZero hue) 360.0) / 30) =
        wave (start + value hue / 30) := by
  have hturn : Close 0 360.0 360 := Close.literal 360 (by decide)
  have hpos : 0 < value 360.0 := by rw [hturn.value_eq]; norm_num
  rw [finiteOrZero, if_pos hfinite, wrap_of_nonneg hfinite h0 hturn.finite hpos]
  obtain ⟨hf, hfract, -⟩ := remainder_of_nonneg hfinite h0 hturn.finite hpos
  obtain ⟨n, hn⟩ := remainder_eq_sub hfinite h0 hturn.finite hpos
  rw [hturn.value_eq] at hfract hn
  have hfract0 := Int.fract_nonneg (value hue / 360)
  have hfract1 := Int.fract_lt_one (value hue / 360)
  refine ⟨⟨hf, by linarith, by push_cast; linarith⟩, ?_⟩
  rw [← wave_add_turns _ n, hn]
  congr 1
  ring

/-! ### Channels -/

/-- The components of a colour are close to rational ones: a lightness, a spread and a hue in units
of 60 degrees. -/
structure Shows (color : Hsl) (lightness spread turns : ℚ) : Prop where
  lightness : Close (2 ^ (-49 : ℤ)) (fraction color.l) lightness
  spread : Close (2 ^ (-35 : ℤ)) (Hsl.spread (fraction color.s) (fraction color.l)) spread
  hue : Close (2 ^ (-33 : ℤ)) color.h (60 * turns)
  nonneg : 0 ≤ value color.h

/-- A channel of doubles is close to the one over `ℚ`. -/
theorem Shows.close_channel {color : Hsl} {lightness spread turns : ℚ}
    (h : Shows color lightness spread turns) (hl : |lightness| ≤ 1) (hs : |spread| ≤ 1)
    {start : Float} (hstart : Bounded 8 start) :
    Close (2 ^ (-32 : ℤ))
      (channelValue (fraction color.l) (Hsl.spread (fraction color.s) (fraction color.l))
        (position remainder start (wrap (finiteOrZero color.h) 360.0)))
      (lightness - spread * wave (value start + 2 * turns)) := by
  obtain ⟨hbounded, hwrap⟩ := wave_wrap h.hue.finite h.nonneg (value start)
  have hdepth := close_depth_position hstart hbounded
  rw [hwrap] at hdepth
  have hturn : |value start + value color.h / 30 - (value start + 2 * turns)| ≤ 2 ^ (-37 : ℤ) := by
    rw [show value start + value color.h / 30 - (value start + 2 * turns) =
      (value color.h - 60 * turns) / 30 by ring, abs_div, abs_of_pos (by norm_num : (0 : ℚ) < 30),
      div_le_iff₀ (by norm_num)]
    exact h.hue.near.trans (by norm_num)
  have hwave := hdepth.trans ((abs_wave_sub_le _ _).trans hturn)
  have hpart := h.spread.mul hwave 1 1 hs (abs_wave_le _) 1 (by norm_num)
  have hchannel := h.lightness.sub hpart 2 ?_ 2 (by norm_num)
  · exact hchannel.weaken (by norm_num)
  · have hproduct : |spread * wave (value start + 2 * turns)| ≤ 1 := by
      rw [abs_mul]
      exact mul_le_one₀ hs (abs_nonneg _) (abs_wave_le _)
    exact (abs_sub _ _).trans (by linarith)

end Hsl

end DesignTokens

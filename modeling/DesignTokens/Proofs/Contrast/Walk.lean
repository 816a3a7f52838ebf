import DesignTokens.Proofs.Contrast.Ratio
import DesignTokens.Proofs.Contrast.Suggestion

/-!
# Walking away from the background

The search for an alternative stops at the first step that reaches its target.  A foreground that
moves away from its background in luminance never loses contrast on the way (`ratio_move_mono`):
every further step takes all channels in the same direction or leaves them at their bound.  The last
step therefore decides whether such a walk finds anything (`isSome_search_iff_last`), whatever the
target.
-/

namespace DesignTokens

open Number Contrast

/-- Whether a foreground gets further from its background in luminance when it moves in a
direction. -/
def Direction.LeadsAway : Direction → (foreground background : Rgb) → Prop
  | darker, foreground, background => luminance foreground ≤ luminance background
  | lighter, foreground, background => luminance background ≤ luminance foreground

namespace Suggestion

/-! ### Luminance along a walk -/

section Luminance

variable {m n : ℕ}

/-- Luminances of moved colours are compared channel by channel. -/
theorem luminance_move_le (first second : Direction)
    (h : ∀ channel : UInt8, first.moved m channel.toNat ≤ second.moved n channel.toNat)
    (color : Rgb) : luminance (first.move m color) ≤ luminance (second.move n color) := by
  obtain ⟨hr, hg, hb⟩ := toNat_move first m color
  obtain ⟨hr', hg', hb'⟩ := toNat_move second n color
  rw [luminance_le_iff]
  apply luminance_mono
  · rw [UInt8.le_iff_toNat_le, hr, hr']
    exact h color.r
  · rw [UInt8.le_iff_toNat_le, hg, hg']
    exact h color.g
  · rw [UInt8.le_iff_toNat_le, hb, hb']
    exact h color.b

theorem luminance_darken_anti (h : m ≤ n) (color : Rgb) :
    luminance (color.darken n) ≤ luminance (color.darken m) := by
  apply luminance_move_le .darker .darker
  intro channel
  show channel.toNat - n ≤ channel.toNat - m
  omega

theorem luminance_lighten_mono (h : m ≤ n) (color : Rgb) :
    luminance (color.lighten m) ≤ luminance (color.lighten n) := by
  apply luminance_move_le .lighter .lighter
  intro channel
  show min 255 (channel.toNat + m) ≤ min 255 (channel.toNat + n)
  omega

theorem darken_zero (color : Rgb) : color.darken 0 = color := by
  simp [Rgb.darken, Rgb.map]

theorem lighten_zero (color : Rgb) : color.lighten 0 = color := by
  have hchannel : ∀ c : UInt8, UInt8.ofNat (min 255 (c.toNat + 0)) = c := by
    intro c
    have hc : c.toNat < 256 := c.toNat_lt
    rw [show min 255 (c.toNat + 0) = c.toNat by omega, UInt8.ofNat_toNat]
  simp only [Rgb.lighten, Rgb.map, hchannel]

end Luminance

/-! ### Contrast along a walk -/

section Away

variable {foreground background : Rgb} {direction : Direction}

/-- A foreground that moves away from its background never loses contrast. -/
theorem ratio_move_mono (haway : direction.LeadsAway foreground background) {m n : ℕ} (h : m ≤ n) :
    Contrast.ratio (direction.move m foreground) background ≤
      Contrast.ratio (direction.move n foreground) background := by
  cases direction with
  | darker =>
    -- the walk starts on the dark side of the background and stays there
    have hstart : luminance (foreground.darken m) ≤ luminance foreground := by
      simpa only [darken_zero] using luminance_darken_anti (Nat.zero_le m) foreground
    exact ratio_le_of_darker (luminance_darken_anti h foreground) (le_of_le_of_le hstart haway)
  | lighter =>
    have hstart : luminance foreground ≤ luminance (foreground.lighten m) := by
      simpa only [lighten_zero] using luminance_lighten_mono (Nat.zero_le m) foreground
    exact ratio_le_of_lighter (luminance_lighten_mono h foreground) (le_of_le_of_le haway hstart)

/-- The last step decides whether a walk away from the background reaches its target. -/
theorem isSome_search_iff_last (haway : direction.LeadsAway foreground background)
    (target : Float) :
    (search foreground background target direction).isSome = true ↔
      target ≤ Contrast.ratio (direction.move 150 foreground) background := by
  rw [isSome_search_iff]
  constructor
  · rintro ⟨i, -, hi, hreach⟩
    exact le_of_le_of_le hreach (ratio_move_mono haway (show 15 * i ≤ 150 by omega))
  · intro hlast
    exact ⟨10, by omega, le_rfl, hlast⟩

end Away

/-- A foreground no lighter than its background never loses contrast as it is darkened in steps of
fifteen, and the search toward black finds something exactly if the tenth step reaches the target;
the same holds toward white for a foreground no darker than its background. -/
theorem walk_away_is_never_cut_short (foreground background : Rgb) :
    (luminance foreground ≤ luminance background →
      (∀ i j, i ≤ j →
        Contrast.ratio (foreground.darken (15 * i)) background ≤
          Contrast.ratio (foreground.darken (15 * j)) background) ∧
      ∀ target, (search foreground background target .darker).isSome = true ↔
        target ≤ Contrast.ratio (foreground.darken 150) background) ∧
    (luminance background ≤ luminance foreground →
      (∀ i j, i ≤ j →
        Contrast.ratio (foreground.lighten (15 * i)) background ≤
          Contrast.ratio (foreground.lighten (15 * j)) background) ∧
      ∀ target, (search foreground background target .lighter).isSome = true ↔
        target ≤ Contrast.ratio (foreground.lighten 150) background) := by
  constructor
  · intro hdark
    have haway : Direction.darker.LeadsAway foreground background := hdark
    refine ⟨?_, isSome_search_iff_last haway⟩
    intro i j hij
    exact ratio_move_mono haway (Nat.mul_le_mul_left 15 hij)
  · intro hlight
    have haway : Direction.lighter.LeadsAway foreground background := hlight
    refine ⟨?_, isSome_search_iff_last haway⟩
    intro i j hij
    exact ratio_move_mono haway (Nat.mul_le_mul_left 15 hij)

/-- A grey walks away from white toward black and reaches the contrast `7`; toward white it walks
away from black, and the contrast `21` of the two ends is not in reach from a dark grey. -/
theorem walk_away_is_never_cut_short_grey :
    luminance ⟨153, 153, 153⟩ ≤ luminance .white ∧
      (search ⟨153, 153, 153⟩ .white 7.0 .darker).isSome = true ∧
    luminance .black ≤ luminance ⟨51, 51, 51⟩ ∧
      ¬(search ⟨51, 51, 51⟩ .black 21.0 .lighter).isSome = true := by
  have hdark : luminance ⟨153, 153, 153⟩ ≤ luminance .white := by decide +kernel
  have hlight : luminance .black ≤ luminance ⟨51, 51, 51⟩ := by decide +kernel
  obtain ⟨-, hdarker⟩ := (walk_away_is_never_cut_short ⟨153, 153, 153⟩ .white).1 hdark
  obtain ⟨-, hlighter⟩ := (walk_away_is_never_cut_short ⟨51, 51, 51⟩ .black).2 hlight
  refine ⟨hdark, (hdarker 7.0).mpr ?_, hlight, (hlighter 21.0).not.mpr ?_⟩
  all_goals decide +kernel

end Suggestion

end DesignTokens

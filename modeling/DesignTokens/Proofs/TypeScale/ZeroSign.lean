import DesignTokens.Proofs.Number.Close
import DesignTokens.Proofs.TypeScale.Clamp

/-!
# The sign of a printed zero

A small negative number would be printed as `-0.00`.  So every term of a `clamp()` is compared with
`0.005` first and replaced by zero if it is smaller in magnitude.  The double `0.005` is not
`1/200`, and `1/200` itself is rounded to the even hundredth `0`, so the comparison could catch too
much or too little.  It does neither: of all doubles, NaN and `±∞` included, it catches exactly
those that are printed as `0.00` or `-0.00` (`lt_threshold_iff_fixed`), and no text changes but
`-0.00` (`only_zeros_lose_their_sign`).
-/

namespace DesignTokens

open Number Float.Model

namespace Number

/-- `|x| < b` for a finite `b` makes `x` finite. -/
theorem isFinite_of_abs_lt {x b : Float} (hb : b.isFinite = true) (h : x.abs < b) :
    x.isFinite = true := by
  have hfinite := isFinite_or_of_le hb (Number.le_of_lt h)
  change x.toModel.unpack.isFinite = true
  change (pack x.toModel.unpack.abs).unpack.isFinite = true ∨
    (pack x.toModel.unpack.abs).unpack = .infinity .negative at hfinite
  cases hx : x.toModel.unpack with
  | zero s => rfl
  | finite s m e hm => rfl
  | notANumber =>
    have hnan : (pack UnpackedFloat.notANumber.abs).unpack = .notANumber := rfl
    rw [hx, hnan] at hfinite
    rcases hfinite with hfinite | hfinite <;> cases hfinite
  | infinity s =>
    have hinfinity : (pack (UnpackedFloat.infinity s).abs).unpack = .infinity .positive := by
      cases s <;> rfl
    rw [hx, hinfinity] at hfinite
    rcases hfinite with hfinite | hfinite <;> cases hfinite

end Number

namespace Clamp

/-- A finite double is printed as `0.00` or `-0.00` exactly if it is rounded to zero hundredths. -/
theorem fixed_eq_zero_iff {x : Float} (hx : x.isFinite = true) :
    fixed 2 x = "0.00" ∨ fixed 2 x = "-0.00" ↔ hundredths x = 0 := by
  rw [hundredths_eq]
  constructor
  · intro htext
    by_contra hne
    have hshows := showsUnits_fixed two_ne_zero hx hne
    rcases htext with htext | htext
    · rw [htext] at hshows
      exact hne (hshows.unique showsUnits_zero)
    · exact hshows.ne_negative_zero htext
  · intro hzero
    obtain ⟨negative, n, hn, -, htext⟩ := fixed_of_isFinite two_ne_zero hx
    rw [hzero] at hn
    rw [htext]
    cases negative with
    | false =>
      obtain rfl : n = 0 := Int.ofNat_eq_zero.mp hn
      exact .inl (by decide)
    | true =>
      obtain rfl : n = 0 := Int.ofNat_eq_zero.mp (neg_eq_zero.mp hn)
      exact .inr (by decide)

/-- NaN and `±∞` are printed as words. -/
theorem fixed_ne_zero {x : Float} (hx : x.isFinite = false) :
    ¬(fixed 2 x = "0.00" ∨ fixed 2 x = "-0.00") := by
  change x.toModel.unpack.isFinite = false at hx
  unfold fixed shape
  cases hunpack : x.toModel.unpack with
  | notANumber => decide
  | infinity s => cases s <;> decide
  | zero s =>
    rw [hunpack] at hx
    cases hx
  | finite s m e hm =>
    rw [hunpack] at hx
    cases hx

/-- `|x| < 0.005` exactly if `x` is printed as `0.00` or `-0.00`. -/
theorem lt_threshold_iff_fixed (x : Float) :
    x.abs < 0.005 ↔ fixed 2 x = "0.00" ∨ fixed 2 x = "-0.00" := by
  cases hx : x.isFinite with
  | true => rw [lt_threshold_iff hx, fixed_eq_zero_iff hx]
  | false =>
    refine iff_of_false (fun hlt => ?_) (fixed_ne_zero hx)
    have hthreshold : Bounded 1 0.005 := (literal_spec 1 (by decide)).1
    rw [isFinite_of_abs_lt hthreshold.finite hlt] at hx
    cases hx

/-- A term is printed as the number is, but `0.00` in place of `-0.00`.  The doubles with
`|x| < 0.005` are exactly those printed as a zero, and those whose nearest hundredth, ties to even,
is zero. -/
theorem only_zeros_lose_their_sign (x : Float) :
    fixed 2 (unsignedZero x) = (if fixed 2 x = "-0.00" then "0.00" else fixed 2 x) ∧
      (x.abs < 0.005 ↔ fixed 2 x = "0.00" ∨ fixed 2 x = "-0.00") ∧
      (x.abs < 0.005 ↔ x.isFinite = true ∧ hundredths x = 0) := by
  refine ⟨?_, lt_threshold_iff_fixed x, ?_⟩
  · have hzero : fixed 2 0.0 = "0.00" := by decide
    unfold unsignedZero
    split_ifs with hsmall hminus hminus
    · exact hzero
    · rw [hzero]
      exact (((lt_threshold_iff_fixed x).mp hsmall).resolve_right hminus).symm
    · exact absurd ((lt_threshold_iff_fixed x).mpr (.inr hminus)) hsmall
    · rfl
  · cases hx : x.isFinite with
    | true =>
      rw [lt_threshold_iff hx]
      exact (and_iff_right rfl).symm
    | false =>
      rw [lt_threshold_iff_fixed]
      exact iff_of_false (fixed_ne_zero hx) fun h => absurd h.1 (by decide)

end Clamp

end DesignTokens

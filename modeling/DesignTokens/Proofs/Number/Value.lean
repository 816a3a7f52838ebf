import DesignTokens.Proofs.Number.Packed

/-!
# Doubles as rational numbers

`value x` is the rational number that a finite double represents.  Through it the operations and
comparisons of doubles are those of rational numbers:

* `RoundsTo q z` says that `z` is what `q` is rounded to, `±∞` on overflow; the sum, difference,
  product and quotient of finite doubles are what the exact results are rounded to (`add_roundsTo`,
  `sub_roundsTo`, `mul_roundsTo`, `div_roundsTo`).
* `le_iff_value_le` and `lt_iff_value_lt`: finite doubles are ordered as their values.
* `eq_of_value_eq`: only zero is represented by two doubles.
-/

namespace DesignTokens.Number

open Float.Model Float.Model.UnpackedFloat

/-! ### Values -/

/-- The value of a double; NaN and `±∞` count as zero. -/
def value (x : Float) : ℚ :=
  unpackedValue x.toModel.unpack

theorem canonical_of_isFinite {x : Float} (hx : x.isFinite = true) :
    Canonical x.toModel.unpack ∧ |value x| < limit :=
  canonical_unpack hx

theorem isFinite_of_canonical {u : UnpackedFloat} (hu : Canonical u) : u.isFinite = true := by
  cases u with
  | infinity s => exact hu.elim
  | notANumber => exact hu.elim
  | zero s => rfl
  | finite s m e h => rfl

/-- The value of a finite double is a number of the grid. -/
theorem onGrid_value {x : Float} (hx : x.isFinite = true) : OnGrid (value x) := by
  have hc := (canonical_of_isFinite hx).1
  unfold value
  cases hu : x.toModel.unpack with
  | infinity s => rw [hu] at hc; exact hc.elim
  | notANumber => rw [hu] at hc; exact hc.elim
  | zero s => exact ⟨0, 0, by norm_num, by norm_num, by simp [unpackedValue]⟩
  | finite s m e h =>
    rw [hu] at hc
    obtain ⟨hm, he, -⟩ := hc
    refine ⟨s.apply m, e, ?_, he, applySign_natCast s m e⟩
    have habs : |s.apply (m : ℤ)| = m := by cases s <;> simp [Sign.apply]
    rw [habs]
    exact_mod_cast hm

/-! ### Rounding to a double -/

/-- `z` is the double nearest to `q`, or `±∞` on overflow. -/
structure RoundsTo (q : ℚ) (z : Float) : Prop where
  finite : |rounded q| < limit → z.isFinite = true ∧ value z = rounded q
  infinite : limit ≤ |rounded q| →
    z.toModel.unpack = .infinity (if q < 0 then .negative else .positive)

/-- What is packed from the canonical form of `rounded q` is what `q` is rounded to. -/
theorem roundsTo_pack {u : UnpackedFloat} {q : ℚ} (hu : Canonical u)
    (hv : unpackedValue u = rounded q) : RoundsTo q (.ofModel (.pack u)) where
  finite hlt := by
    rw [← hv] at hlt
    have hunpack := unpack_pack hu hlt
    refine ⟨?_, ?_⟩
    · change (Float.Model.pack u).unpack.isFinite = true
      rw [hunpack]
      exact isFinite_of_canonical hu
    · change unpackedValue (Float.Model.pack u).unpack = rounded q
      rw [hunpack, hv]
  infinite hle := by
    change (Float.Model.pack u).unpack = _
    rw [unpack_pack_of_le hu (by rwa [hv]), hv]
    -- nothing but a negative number is rounded to a negative one
    have hlimit : 0 < limit := zpow_pos (by norm_num) _
    have hsign : rounded q < 0 ↔ q < 0 := by
      constructor
      · intro h
        by_contra hq
        exact absurd (rounded_nonneg (not_lt.mp hq)) (not_le.mpr h)
      · intro h
        have hle0 : rounded q ≤ 0 := by
          have := rounded_mono h.le
          rwa [rounded_zero] at this
        refine lt_of_le_of_ne hle0 fun h0 => ?_
        rw [h0, abs_zero] at hle
        exact absurd hlimit (not_lt.mpr hle)
    simp only [hsign]

theorem abs_rounded_lt_limit {q : ℚ} (hq : |q| ≤ 2 ^ (1023 : ℤ)) : |rounded q| < limit := by
  have hgrid : OnGrid (2 ^ (1023 : ℤ)) := ⟨1, 1023, by norm_num, by norm_num, by simp⟩
  have hlt : (2 : ℚ) ^ (1023 : ℤ) < limit := zpow_lt_zpow_right₀ (by norm_num) (by norm_num)
  exact (abs_rounded_le hgrid hq).trans_lt hlt

/-- Away from the limit the result is finite. -/
theorem RoundsTo.of_abs_le {q : ℚ} {z : Float} (h : RoundsTo q z) (hq : |q| ≤ 2 ^ (1023 : ℤ)) :
    z.isFinite = true ∧ value z = rounded q :=
  h.finite (abs_rounded_lt_limit hq)

theorem onGrid_natCast {n : ℕ} (hn : n < 2 ^ 53) : OnGrid n :=
  ⟨n, 0, by rw [Nat.abs_cast]; exact_mod_cast hn, by norm_num, by simp⟩

theorem onGrid_one : OnGrid 1 :=
  ⟨1, 0, by norm_num, by norm_num, by norm_num⟩

theorem natCast_le_top {n : ℕ} (hn : n < 2 ^ 53) : (n : ℚ) ≤ 2 ^ (1023 : ℤ) :=
  calc (n : ℚ) ≤ 2 ^ (53 : ℤ) := by exact_mod_cast hn.le
    _ ≤ 2 ^ (1023 : ℤ) := zpow_le_zpow_right₀ (by norm_num) (by norm_num)

/-- Integers of at most 53 binary digits are doubles. -/
theorem RoundsTo.of_natCast {n : ℕ} {z : Float} (h : RoundsTo n z) (hn : n < 2 ^ 53) :
    z.isFinite = true ∧ value z = n := by
  obtain ⟨hfinite, hvalue⟩ := h.of_abs_le (by rw [Nat.abs_cast]; exact natCast_le_top hn)
  exact ⟨hfinite, hvalue.trans (rounded_eq_self (onGrid_natCast hn))⟩

/-! ### Operations -/

section Operations

variable {x y : Float}

theorem add_roundsTo (hx : x.isFinite = true) (hy : y.isFinite = true) :
    RoundsTo (value x + value y) (x + y) := by
  obtain ⟨hc, hv⟩ := add_spec (canonical_of_isFinite hx).1 (canonical_of_isFinite hy).1
  exact roundsTo_pack hc hv

theorem sub_roundsTo (hx : x.isFinite = true) (hy : y.isFinite = true) :
    RoundsTo (value x - value y) (x - y) := by
  obtain ⟨hc, hv⟩ := sub_spec (canonical_of_isFinite hx).1 (canonical_of_isFinite hy).1
  exact roundsTo_pack hc hv

theorem mul_roundsTo (hx : x.isFinite = true) (hy : y.isFinite = true) :
    RoundsTo (value x * value y) (x * y) := by
  obtain ⟨hc, hv⟩ := mul_spec (canonical_of_isFinite hx).1 (canonical_of_isFinite hy).1
  exact roundsTo_pack hc hv

theorem div_roundsTo (hx : x.isFinite = true) (hy : y.isFinite = true) (h0 : value y ≠ 0) :
    RoundsTo (value x / value y) (x / y) := by
  obtain ⟨hc, hv⟩ := div_spec (canonical_of_isFinite hx).1 (canonical_of_isFinite hy).1 h0
  exact roundsTo_pack hc hv

end Operations

/-! ### Order -/

/-- In canonical form the greater exponent belongs to the greater magnitude. -/
theorem mul_zpow_lt_of_exponent_lt {s s' : Sign} {m m' : ℕ} {e e' : ℤ} {h : 0 < m} {h' : 0 < m'}
    (hc : Canonical (.finite s m e h)) (hc' : Canonical (.finite s' m' e' h')) (hlt : e < e') :
    (m : ℚ) * 2 ^ e < m' * 2 ^ e' := by
  obtain ⟨hm, he, -⟩ := hc
  obtain ⟨-, -, hlow⟩ := hc'
  have hdigits : 2 ^ 52 ≤ m' := hlow.resolve_right (by omega)
  calc (m : ℚ) * 2 ^ e < 2 ^ 53 * 2 ^ e :=
        mul_lt_mul_of_pos_right (by exact_mod_cast hm) (zpow_pos (by norm_num) e)
    _ = 2 ^ 52 * 2 ^ (e + 1) := by
        rw [zpow_add_one₀ (by norm_num)]
        ring
    _ ≤ 2 ^ 52 * 2 ^ e' :=
        mul_le_mul_of_nonneg_left (zpow_le_zpow_right₀ (by norm_num) (by omega)) (by positivity)
    _ ≤ m' * 2 ^ e' :=
        mul_le_mul_of_nonneg_right (by exact_mod_cast hdigits) (zpow_pos (by norm_num) e').le

/-- Magnitudes in canonical form are compared by exponent and then by mantissa. -/
theorem compare_magnitudes {s s' : Sign} {m m' : ℕ} {e e' : ℤ} {h : 0 < m} {h' : 0 < m'}
    (hc : Canonical (.finite s m e h)) (hc' : Canonical (.finite s' m' e' h')) :
    (compare e e').then (compare m m') = compare ((m : ℚ) * 2 ^ e) (m' * 2 ^ e') := by
  rcases lt_trichotomy e e' with hlt | rfl | hgt
  · rw [compare_lt_iff_lt.mpr hlt, compare_lt_iff_lt.mpr (mul_zpow_lt_of_exponent_lt hc hc' hlt)]
    rfl
  · have hpos : (0 : ℚ) < 2 ^ e := zpow_pos (by norm_num) e
    rw [compare_eq_iff_eq.mpr rfl, Ordering.eq_then]
    rcases lt_trichotomy m m' with hm | rfl | hm
    · rw [compare_lt_iff_lt.mpr hm, eq_comm, compare_lt_iff_lt]
      exact mul_lt_mul_of_pos_right (by exact_mod_cast hm) hpos
    · rw [compare_eq_iff_eq.mpr rfl, compare_eq_iff_eq.mpr rfl]
    · rw [compare_gt_iff_gt.mpr hm, eq_comm, compare_gt_iff_gt]
      exact mul_lt_mul_of_pos_right (by exact_mod_cast hm) hpos
  · rw [compare_gt_iff_gt.mpr hgt, compare_gt_iff_gt.mpr (mul_zpow_lt_of_exponent_lt hc' hc hgt)]
    rfl

theorem unpackedValue_pos {m : ℕ} {e : ℤ} {h : 0 < m} :
    0 < unpackedValue (.finite .positive m e h) := by
  change (0 : ℚ) < m * 2 ^ e
  exact mul_pos (by exact_mod_cast h) (zpow_pos (by norm_num) e)

theorem unpackedValue_neg_of_negative {m : ℕ} {e : ℤ} {h : 0 < m} :
    unpackedValue (.finite .negative m e h) < 0 :=
  neg_lt_zero.mpr (unpackedValue_pos (h := h))

theorem compare_neg_neg (a b : ℚ) : compare (-a) (-b) = (compare a b).swap := by
  rcases lt_trichotomy a b with h | rfl | h
  · rw [compare_lt_iff_lt.mpr h, compare_gt_iff_gt.mpr (neg_lt_neg h)]
    rfl
  · rw [compare_eq_iff_eq.mpr rfl, compare_eq_iff_eq.mpr rfl]
    rfl
  · rw [compare_gt_iff_gt.mpr h, compare_lt_iff_lt.mpr (neg_lt_neg h)]
    rfl

/-- Canonical forms are compared as their values. -/
theorem compare_eq {u v : UnpackedFloat} (hu : Canonical u) (hv : Canonical v) :
    u.compare v = some (compare (unpackedValue u) (unpackedValue v)) := by
  cases u with
  | infinity s => exact hu.elim
  | notANumber => exact hu.elim
  | zero s =>
    cases v with
    | infinity s => exact hv.elim
    | notANumber => exact hv.elim
    | zero s' => exact congrArg some (compare_eq_iff_eq.mpr rfl).symm
    | finite s' m' e' h' =>
      cases s' with
      | positive => exact congrArg some (compare_lt_iff_lt.mpr unpackedValue_pos).symm
      | negative => exact congrArg some (compare_gt_iff_gt.mpr unpackedValue_neg_of_negative).symm
  | finite s m e h =>
    cases v with
    | infinity s => exact hv.elim
    | notANumber => exact hv.elim
    | zero s' =>
      cases s with
      | positive => exact congrArg some (compare_gt_iff_gt.mpr unpackedValue_pos).symm
      | negative => exact congrArg some (compare_lt_iff_lt.mpr unpackedValue_neg_of_negative).symm
    | finite s' m' e' h' =>
      -- the signs decide unless they agree; then the magnitudes do, the other way round below zero
      cases s with
      | positive =>
        cases s' with
        | positive => exact congrArg some (compare_magnitudes hu hv)
        | negative =>
          exact congrArg some
            (compare_gt_iff_gt.mpr (unpackedValue_neg_of_negative.trans unpackedValue_pos)).symm
      | negative =>
        cases s' with
        | positive =>
          exact congrArg some
            (compare_lt_iff_lt.mpr (unpackedValue_neg_of_negative.trans unpackedValue_pos)).symm
        | negative =>
          change some ((compare e e').then (compare m m')).swap =
            some (compare (-(m * 2 ^ e : ℚ)) (-(m' * 2 ^ e')))
          rw [compare_magnitudes hu hv, compare_neg_neg]

section Order

variable {x y : Float}

theorem le_iff_compare : x ≤ y ↔ (x.toModel.unpack.compare y.toModel.unpack).any (·.isLE) = true :=
  decide_eq_true_iff

/-- Finite doubles are ordered as their values. -/
theorem le_iff_value_le (hx : x.isFinite = true) (hy : y.isFinite = true) :
    x ≤ y ↔ value x ≤ value y := by
  rw [le_iff_compare, compare_eq (canonical_of_isFinite hx).1 (canonical_of_isFinite hy).1,
    Option.any_some, ← compare_le_iff_le]
  exact Ordering.isLE_iff_ne_gt

theorem lt_iff_value_lt (hx : x.isFinite = true) (hy : y.isFinite = true) :
    x < y ↔ value x < value y := by
  have hlt : x < y ↔ (x.toModel.unpack.compare y.toModel.unpack == some .lt) = true :=
    decide_eq_true_iff
  rw [hlt, compare_eq (canonical_of_isFinite hx).1 (canonical_of_isFinite hy).1, beq_iff_eq,
    Option.some_inj]
  exact compare_lt_iff_lt

/-- `x ≤ b` for a finite `b` makes `x` finite or `-∞`. -/
theorem isFinite_or_of_le {b : Float} (hb : b.isFinite = true) (hxb : x ≤ b) :
    x.isFinite = true ∨ x.toModel.unpack = .infinity .negative := by
  have hcb := (canonical_of_isFinite hb).1
  rw [le_iff_compare] at hxb
  change x.toModel.unpack.isFinite = true ∨ _
  cases hx : x.toModel.unpack with
  | notANumber => simp [hx, UnpackedFloat.compare] at hxb
  | zero s => exact Or.inl rfl
  | finite s m e h => exact Or.inl rfl
  | infinity s =>
    rw [hx] at hxb
    cases s with
    | negative => exact Or.inr rfl
    | positive => cases hu : b.toModel.unpack <;> simp_all [UnpackedFloat.compare, Canonical]

/-- A double between finite ones is finite. -/
theorem isFinite_of_le_of_le {a b : Float} (ha : a.isFinite = true) (hb : b.isFinite = true)
    (hax : a ≤ x) (hxb : x ≤ b) : x.isFinite = true := by
  refine (isFinite_or_of_le hb hxb).resolve_right fun hx => ?_
  have hca := (canonical_of_isFinite ha).1
  rw [le_iff_compare, hx] at hax
  cases hu : a.toModel.unpack <;> simp_all [UnpackedFloat.compare, Canonical]

/-- The same where the lower bound is given as a comparison that fails, as it does for NaN. -/
theorem isFinite_of_not_le_of_le {a b : Float} (ha : a.isFinite = true) (hb : b.isFinite = true)
    (hax : ¬x ≤ a) (hxb : x ≤ b) : x.isFinite = true := by
  refine (isFinite_or_of_le hb hxb).resolve_right fun hx => hax ?_
  have hca := (canonical_of_isFinite ha).1
  rw [le_iff_compare, hx]
  cases hu : a.toModel.unpack <;> simp_all [UnpackedFloat.compare, Canonical]

/-- Rounding is monotone, also into `±∞`. -/
theorem RoundsTo.le {q r : ℚ} (hx : RoundsTo q x) (hy : RoundsTo r y) (hqr : q ≤ r) : x ≤ y := by
  have hround := rounded_mono hqr
  by_cases hq : |rounded q| < limit
  · obtain ⟨hxf, hxv⟩ := hx.finite hq
    by_cases hr : |rounded r| < limit
    · obtain ⟨hyf, hyv⟩ := hy.finite hr
      rwa [le_iff_value_le hxf hyf, hxv, hyv]
    · -- a greater number that is beyond the limit is so on the positive side
      have hr0 : ¬r < 0 := by
        intro hneg
        have hr0 : rounded r ≤ 0 := by simpa using rounded_mono hneg.le
        rw [abs_of_nonpos hr0] at hr
        exact hr (lt_of_le_of_lt (neg_le_neg hround) (lt_of_le_of_lt (neg_le_abs _) hq))
      have hu := hy.infinite (not_lt.mp hr)
      rw [if_neg hr0] at hu
      have hcx := (canonical_of_isFinite hxf).1
      rw [le_iff_compare, hu]
      cases hxu : x.toModel.unpack <;> simp_all [UnpackedFloat.compare, Canonical]
  · -- a negative infinity is below everything, and above a positive one there is only itself
    have hu := hx.infinite (not_lt.mp hq)
    by_cases hq0 : q < 0
    · rw [if_pos hq0] at hu
      have hyn : y.toModel.unpack ≠ .notANumber := by
        intro hyu
        by_cases hr : |rounded r| < limit
        · have hcy := (canonical_of_isFinite (hy.finite hr).1).1
          rw [hyu] at hcy
          exact hcy
        · simpa [hyu] using hy.infinite (not_lt.mp hr)
      rw [le_iff_compare, hu]
      cases hyu : y.toModel.unpack with
      | notANumber => exact absurd hyu hyn
      | infinity s => cases s <;> rfl
      | zero s => rfl
      | finite s m e h => rfl
    · have hpos : 0 ≤ rounded q := rounded_nonneg (not_lt.mp hq0)
      rw [abs_of_nonneg hpos] at hq
      have hr := hy.infinite ((not_lt.mp hq).trans (hround.trans (le_abs_self _)))
      rw [if_neg (by linarith)] at hr
      rw [if_neg hq0] at hu
      rw [le_iff_compare, hu, hr]
      rfl

/-- Canonical forms of one value other than zero are equal. -/
theorem eq_of_unpackedValue_eq {u v : UnpackedFloat} (hu : Canonical u) (hv : Canonical v)
    (h : unpackedValue u = unpackedValue v) (h0 : unpackedValue u ≠ 0) : u = v := by
  have hcompare := compare_eq hu hv
  rw [compare_eq_iff_eq.mpr h] at hcompare
  cases u with
  | infinity s => exact hu.elim
  | notANumber => exact hu.elim
  | zero s => exact absurd rfl h0
  | finite s m e hm =>
    cases v with
    | infinity s => exact hv.elim
    | notANumber => exact hv.elim
    | zero s' => exact absurd h h0
    | finite s' m' e' hm' =>
      have heq : s = s' ∧ (compare e e').then (compare m m') = .eq := by
        cases s <;> cases s' <;> simp_all [UnpackedFloat.compare]
      obtain ⟨rfl, hthen⟩ := heq
      obtain ⟨he, hm⟩ := Ordering.then_eq_eq.mp hthen
      obtain rfl := compare_eq_iff_eq.mp he
      obtain rfl := compare_eq_iff_eq.mp hm
      rfl

/-- Only zero is represented by two doubles. -/
theorem eq_of_value_eq (hx : x.isFinite = true) (hy : y.isFinite = true) (h : value x = value y)
    (h0 : value x ≠ 0) : x = y :=
  eq_of_unpack_eq
    (eq_of_unpackedValue_eq (canonical_of_isFinite hx).1 (canonical_of_isFinite hy).1 h h0)

/-- Only one double is what a number is rounded to, unless that is zero. -/
theorem RoundsTo.unique {q : ℚ} (hx : RoundsTo q x) (hy : RoundsTo q y)
    (h0 : rounded q ≠ 0) : x = y := by
  rcases lt_or_ge |rounded q| limit with hlt | hge
  · obtain ⟨hfinite, hvalue⟩ := hx.finite hlt
    obtain ⟨hfinite', hvalue'⟩ := hy.finite hlt
    apply eq_of_value_eq hfinite hfinite'
    · rw [hvalue, hvalue']
    · rwa [hvalue]
  · exact eq_of_unpack_eq ((hx.infinite hge).trans (hy.infinite hge).symm)

end Order

/-! ### Shapes -/

theorem applySign_zero (s : Sign) : applySign s 0 = 0 := by
  cases s <;> simp [applySign]

/-- What a double is unpacked to, by its shape. -/
theorem unpack_of_shape {x : Float} {negative : Bool} {s : ℕ} {e : ℤ}
    (h : shape x = .finite negative s e) :
    (s = 0 ∧ e = 0 ∧ x.toModel.unpack = .zero (signOf negative)) ∨
      ∃ hs : 0 < s, x.toModel.unpack = .finite (signOf negative) s e hs := by
  unfold shape at h
  cases hu : x.toModel.unpack with
  | infinity sign => simp [hu] at h
  | notANumber => simp [hu] at h
  | zero sign =>
    rw [hu, Shape.finite.injEq] at h
    obtain ⟨rfl, rfl, rfl⟩ := h
    exact Or.inl ⟨rfl, rfl, by cases sign <;> rfl⟩
  | finite sign m e' hm =>
    rw [hu, Shape.finite.injEq] at h
    obtain ⟨rfl, rfl, rfl⟩ := h
    exact Or.inr ⟨hm, by cases sign <;> rfl⟩

theorem unpack_of_shape_nan {x : Float} (h : shape x = .nan) : x.toModel.unpack = .notANumber := by
  unfold shape at h
  cases hu : x.toModel.unpack <;> simp_all

theorem unpack_of_shape_infinite {x : Float} {negative : Bool} (h : shape x = .infinite negative) :
    x.toModel.unpack = .infinity (signOf negative) := by
  unfold shape at h
  cases hu : x.toModel.unpack with
  | infinity s =>
    rw [hu, Shape.infinite.injEq] at h
    rw [← h]
    cases s <;> rfl
  | _ => simp [hu] at h

/-- The shape of a finite double gives its value. -/
theorem value_of_shape {x : Float} {negative : Bool} {s : ℕ} {e : ℤ}
    (h : shape x = .finite negative s e) :
    x.isFinite = true ∧ value x = applySign (signOf negative) (s * 2 ^ e) := by
  change x.toModel.unpack.isFinite = true ∧ unpackedValue x.toModel.unpack = _
  rcases unpack_of_shape h with ⟨rfl, rfl, hu⟩ | ⟨hs, hu⟩
  · rw [hu, Nat.cast_zero, zero_mul, applySign_zero]
    exact ⟨rfl, rfl⟩
  · rw [hu]
    exact ⟨rfl, rfl⟩

theorem exists_shape {x : Float} (hx : x.isFinite = true) :
    ∃ negative s e, shape x = .finite negative s e := by
  change x.toModel.unpack.isFinite = true at hx
  unfold shape
  cases hu : x.toModel.unpack with
  | infinity sign => simp [hu, UnpackedFloat.isFinite] at hx
  | notANumber => simp [hu, UnpackedFloat.isFinite] at hx
  | zero sign => exact ⟨_, _, _, rfl⟩
  | finite sign m e h => exact ⟨_, _, _, rfl⟩

/-- A double of value zero has a zero for its significand. -/
theorem shape_of_value_eq_zero {x : Float} (hx : x.isFinite = true) (h0 : value x = 0) :
    ∃ negative, shape x = .finite negative 0 0 ∧ x.toModel.unpack = .zero (signOf negative) := by
  obtain ⟨negative, s, e, h⟩ := exists_shape hx
  rcases unpack_of_shape h with ⟨rfl, rfl, hunpack⟩ | ⟨hs, -⟩
  · exact ⟨negative, h, hunpack⟩
  · have hv := (value_of_shape h).2
    have hne : (0 : ℚ) < s * 2 ^ e := mul_pos (by exact_mod_cast hs) (zpow_pos (by norm_num) e)
    rw [h0, eq_comm, ← abs_eq_zero, abs_applySign hne.le] at hv
    exact absurd hv hne.ne'

/-- The shape of a positive double. -/
theorem shape_of_pos {x : Float} (hx : x.isFinite = true) (hpos : 0 < value x) :
    ∃ s e, 0 < s ∧ shape x = .finite false s e ∧ value x = s * 2 ^ e := by
  obtain ⟨negative, s, e, h⟩ := exists_shape hx
  have hv := (value_of_shape h).2
  have hpow : (0 : ℚ) < 2 ^ e := zpow_pos (by norm_num) e
  rw [hv] at hpos
  cases negative with
  | true =>
    have : (0 : ℚ) ≤ s * 2 ^ e := mul_nonneg (Nat.cast_nonneg s) hpow.le
    exact absurd hpos (not_lt.mpr (neg_nonpos.mpr this))
  | false => exact ⟨s, e, by exact_mod_cast pos_of_mul_pos_left hpos hpow.le, h, hv⟩

/-- The significand of a double has at most 53 binary digits. -/
theorem significand_lt {x : Float} {negative : Bool} {s : ℕ} {e : ℤ}
    (h : shape x = .finite negative s e) : s < 2 ^ 53 ∧ -1074 ≤ e := by
  rcases unpack_of_shape h with ⟨rfl, rfl, -⟩ | ⟨hs, hu⟩
  · norm_num
  · have hc := (canonical_of_isFinite (value_of_shape h).1).1
    rw [hu] at hc
    exact ⟨hc.1, hc.2.1⟩

theorem ofDyadic_roundsTo (negative : Bool) (s : ℕ) (e : ℤ) :
    RoundsTo (applySign (signOf negative) (s * 2 ^ e)) (ofDyadic negative s e) := by
  unfold ofDyadic
  split
  case isTrue h =>
    subst h
    refine roundsTo_pack trivial ?_
    rw [Nat.cast_zero, zero_mul, applySign_zero, rounded_zero]
    rfl
  case isFalse h =>
    obtain ⟨hc, hv⟩ := round_spec (Nat.pos_of_ne_zero h)
    exact roundsTo_pack hc (hv.trans (rounded_applySign _ _).symm)

/-- Negation changes the sign alone. -/
theorem unpack_neg (x : Float) : (-x).toModel.unpack = x.toModel.unpack.neg := by
  by_cases hx : x.isFinite = true
  · obtain ⟨hc, hlt⟩ := canonical_of_isFinite hx
    refine unpack_pack (canonical_neg.mpr hc) ?_
    rw [unpackedValue_neg, abs_neg]
    exact hlt
  · change (Float.Model.pack x.toModel.unpack.neg).unpack = _
    change ¬x.toModel.unpack.isFinite = true at hx
    cases hu : x.toModel.unpack with
    | notANumber => rfl
    | infinity s => cases s <;> exact unpack_packedInfinity _
    | zero s => exact absurd (by rw [hu]; rfl) hx
    | finite s m e h => exact absurd (by rw [hu]; rfl) hx

theorem value_neg {x : Float} (hx : x.isFinite = true) :
    (-x).isFinite = true ∧ value (-x) = -value x := by
  have hunpack := unpack_neg x
  have hc := canonical_neg.mpr (canonical_of_isFinite hx).1
  refine ⟨?_, ?_⟩
  · change (-x).toModel.unpack.isFinite = true
    rw [hunpack]
    exact isFinite_of_canonical hc
  · rw [value, hunpack, unpackedValue_neg]
    rfl

/-- The double of a shape is the one it was taken from, without its sign. -/
theorem unpack_ofDyadic {x : Float} {negative : Bool} {s : ℕ} {e : ℤ}
    (h : shape x = .finite negative s e) (hs : 0 < s) :
    (ofDyadic false s e).toModel.unpack = .finite .positive s e hs := by
  obtain ⟨hfinite, hvalue⟩ := value_of_shape h
  have hpos : (0 : ℚ) < s * 2 ^ e := mul_pos (by exact_mod_cast hs) (zpow_pos (by norm_num) e)
  have hcanonical : Canonical (.finite .positive s e hs) := by
    have hu := (unpack_of_shape h).resolve_left fun ⟨hs0, _⟩ => hs.ne' hs0
    have hc := (canonical_of_isFinite hfinite).1
    obtain ⟨hs', hu⟩ := hu
    rw [hu] at hc
    exact hc
  have hunpacked : unpackedValue (.finite .positive s e hs) = (s : ℚ) * 2 ^ e := rfl
  -- a canonical form is its own rounding, so that nothing is lost on the way
  have hself := rounded_unpackedValue hcanonical
  rw [hunpacked] at hself
  have hlt : |rounded ((s : ℚ) * 2 ^ e)| < limit := by
    have hbound := (canonical_of_isFinite hfinite).2
    rw [hvalue, abs_applySign hpos.le] at hbound
    rw [hself, abs_of_pos hpos]
    exact hbound
  have hround : RoundsTo (s * 2 ^ e) (ofDyadic false s e) := ofDyadic_roundsTo false s e
  obtain ⟨hf, hv⟩ := hround.finite hlt
  rw [hself] at hv
  have hzero : value (ofDyadic false s e) ≠ 0 := hv ▸ hpos.ne'
  exact eq_of_unpackedValue_eq (canonical_of_isFinite hf).1 hcanonical
    (hv.trans hunpacked.symm) hzero

theorem shape_ofDyadic {x : Float} {negative : Bool} {s : ℕ} {e : ℤ}
    (h : shape x = .finite negative s e) (hs : 0 < s) :
    shape (ofDyadic false s e) = .finite false s e := by
  unfold shape
  rw [unpack_ofDyadic h hs]
  rfl

/-- A double is told by its shape. -/
theorem shape_injective {x y : Float} (h : shape x = shape y) : x = y := by
  refine eq_of_unpack_eq ?_
  cases hy : shape y with
  | nan => rw [unpack_of_shape_nan (h.trans hy), unpack_of_shape_nan hy]
  | infinite negative => rw [unpack_of_shape_infinite (h.trans hy), unpack_of_shape_infinite hy]
  | finite negative s e =>
    rcases unpack_of_shape (h.trans hy) with ⟨rfl, -, hxu⟩ | ⟨hs, hxu⟩
    · rcases unpack_of_shape hy with ⟨-, -, hyu⟩ | ⟨hs, -⟩
      · rw [hxu, hyu]
      · exact absurd hs (lt_irrefl 0)
    · rcases unpack_of_shape hy with ⟨rfl, -, -⟩ | ⟨_, hyu⟩
      · exact absurd hs (lt_irrefl 0)
      · rw [hxu, hyu]

theorem roundsTo_zero : RoundsTo 0 0.0 := by
  have h := ofDyadic_roundsTo false 0 0
  rwa [Nat.cast_zero, zero_mul, applySign_zero, (by decide : ofDyadic false 0 0 = 0.0)] at h

end DesignTokens.Number

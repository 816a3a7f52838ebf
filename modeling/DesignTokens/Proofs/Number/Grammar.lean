import DesignTokens.Proofs.Color.Hex
import DesignTokens.Proofs.Number.Printed

/-!
# The grammar of literals

`WritesFloat cs x` says that a text is a literal for a double: a sign, and then `inf`, `infinity` or
`nan`, or digits with a decimal point and an exponent, for the double nearest to their number.  The
reader takes exactly these texts, each for its double (`read?_eq_some_iff`).  This is shown part by
part, from the end of a literal:

* `readExponent?_eq_some_iff`: the exponent with its mark and sign;
* `exists_readDecimal?_iff`: the digits on both sides of the point, with their number;
* `readMagnitude?_cases`, `WritesDecimal.exists_readMagnitude?`: words and digits, which do not
  begin alike.

Every double is written in running text as a literal for it (`writesFloat_plain`).
-/

namespace DesignTokens.Number

open Decimal

/-! ### Literals -/

/-- The ways to write a sign. -/
inductive WritesSign : List Char → Bool → Prop
  | none : WritesSign [] false
  | plus : WritesSign ['+'] false
  | minus : WritesSign ['-'] true

/-- The ways to write the digits behind the point: if there are none, the point may be left out. -/
inductive WritesFraction : List Char → List Char → Prop
  | none : WritesFraction [] []
  | point {digits : List Char} (hdigits : AllDigits digits) : WritesFraction ('.' :: digits) digits

/-- The ways to write an exponent of ten. -/
inductive WritesExponent : List Char → ℤ → Prop
  | none : WritesExponent [] 0
  | mark {mark : Char} {sign digits : List Char} {negative : Bool} (hmark : mark = 'e' ∨ mark = 'E')
      (hsign : WritesSign sign negative) (hdigits : AllDigits digits) (hne : digits ≠ []) :
      WritesExponent (mark :: (sign ++ digits)) (withSign negative (Nat.ofDigitChars 10 digits 0))

/-- The ways to write a number from zero on: digits before and behind a point, one at least in all,
and an exponent. -/
inductive WritesDecimal : List Char → ℚ → Prop
  | intro {whole point fraction power : List Char} {exponent : ℤ} (hwhole : AllDigits whole)
      (hfraction : WritesFraction point fraction) (hne : whole ++ fraction ≠ [])
      (hpower : WritesExponent power exponent) :
      WritesDecimal (whole ++ (point ++ power))
        (Nat.ofDigitChars 10 (whole ++ fraction) 0 * 10 ^ (exponent - fraction.length))

/-- The ways to write a double; words may have letters of either case. -/
inductive WritesFloat : List Char → Float → Prop
  | infinity {sign word : List Char} {negative : Bool} {x : Float}
    (hsign : WritesSign sign negative)
      (hword : word.map Char.toLower = "inf".toList ∨ word.map Char.toLower = "infinity".toList)
      (hx : x.toModel.unpack = .infinity (signOf negative)) : WritesFloat (sign ++ word) x
  | notANumber {sign word : List Char} {negative : Bool} {x : Float}
    (hsign : WritesSign sign negative)
      (hword : word.map Char.toLower = "nan".toList) (hx : x.toModel.unpack = .notANumber) :
      WritesFloat (sign ++ word) x
  | decimal {sign digits : List Char} {negative : Bool} {q : ℚ} {x : Float}
    (hsign : WritesSign sign negative)
      (hdigits : WritesDecimal digits q) (hx : IsNearest negative q x) :
        WritesFloat (sign ++ digits) x

/-! ### Signs and digits -/

theorem exists_spanSign (cs : List Char) :
    ∃ sign negative rest,
      spanSign cs = (negative, rest) ∧ cs = sign ++ rest ∧ WritesSign sign negative := by
  unfold spanSign
  split
  · exact ⟨['-'], _, _, rfl, rfl, .minus⟩
  · exact ⟨['+'], _, _, rfl, rfl, .plus⟩
  · exact ⟨[], _, _, rfl, rfl, .none⟩

/-- A sign is read in front of what has no sign itself. -/
theorem WritesSign.spanSign_append {sign : List Char} {negative : Bool}
    (h : WritesSign sign negative) {cs : List Char} (hcs : ∀ c ∈ cs.head?, c ≠ '-' ∧ c ≠ '+') :
    spanSign (sign ++ cs) = (negative, cs) := by
  cases h with
  | plus => rfl
  | minus => rfl
  | none =>
    rw [List.nil_append]
    unfold spanSign
    split
    · exact absurd rfl (hcs '-' rfl).1
    · exact absurd rfl (hcs '+' rfl).2
    · rfl

theorem exists_spanDigits (cs : List Char) :
    ∃ digits rest, spanDigits cs = (digits, rest) ∧ cs = digits ++ rest ∧ AllDigits digits :=
  ⟨_, _, rfl, List.takeWhile_append_dropWhile.symm, fun _ hc => List.mem_takeWhile_imp hc⟩

theorem ne_sign_of_allDigits {cs : List Char} (h : AllDigits cs) :
    ∀ c ∈ cs.head?, c ≠ '-' ∧ c ≠ '+' := by
  intro c hc
  have hdigit := h c (List.mem_of_mem_head? hc)
  constructor <;> rintro rfl <;> exact absurd hdigit (by decide)

/-! ### Exponents -/

theorem readInt?_eq_some_iff {cs : List Char} {n : ℤ} :
    readInt? cs = some n ↔
      ∃ sign digits negative, WritesSign sign negative ∧ AllDigits digits ∧ digits ≠ [] ∧
      cs = sign ++ digits ∧ n = withSign negative (Nat.ofDigitChars 10 digits 0) := by
  constructor
  · intro h
    obtain ⟨sign, negative, rest, hspan, rfl, hsign⟩ := exists_spanSign cs
    obtain ⟨digits, rest, hspan', rfl, hdigits⟩ := exists_spanDigits rest
    unfold readInt? at h
    simp only [hspan, hspan'] at h
    split at h
    · cases h
    · rename_i hne hpair
      obtain ⟨rfl, rfl⟩ := Prod.mk.inj hpair
      obtain rfl := Option.some.inj h
      exact ⟨sign, _, negative, hsign, hdigits, hne, by rw [List.append_nil], rfl⟩
    · cases h
  · rintro ⟨sign, digits, negative, hsign, hdigits, hne, rfl, rfl⟩
    have hspan := spanDigits_append hdigits [] (by simp)
    rw [List.append_nil] at hspan
    unfold readInt?
    rw [hsign.spanSign_append (ne_sign_of_allDigits hdigits)]
    simp only [hspan]

theorem readExponent?_eq_some_iff {cs : List Char} {n : ℤ} :
    readExponent? cs = some n ↔ WritesExponent cs n := by
  constructor
  · intro h
    unfold readExponent? at h
    split at h
    · obtain rfl := Option.some.inj h
      exact .none
    · obtain ⟨sign, digits, negative, hsign, hdigits, hne, rfl, rfl⟩ := readInt?_eq_some_iff.mp h
      exact .mark (.inl rfl) hsign hdigits hne
    · obtain ⟨sign, digits, negative, hsign, hdigits, hne, rfl, rfl⟩ := readInt?_eq_some_iff.mp h
      exact .mark (.inr rfl) hsign hdigits hne
    · cases h
  · intro h
    cases h with
    | none => rfl
    | mark hmark hsign hdigits hne =>
      rcases hmark with rfl | rfl <;>
        exact readInt?_eq_some_iff.mpr ⟨_, _, _, hsign, hdigits, hne, rfl, rfl⟩

/-! ### Digits with a point -/

theorem exists_spanFraction (cs : List Char) :
    ∃ point fraction rest,
      spanFraction cs = (fraction, rest) ∧ cs = point ++ rest ∧ WritesFraction point fraction := by
  unfold spanFraction
  split
  · rename_i cs
    obtain ⟨digits, rest, hspan, rfl, hdigits⟩ := exists_spanDigits cs
    exact ⟨'.' :: digits, digits, rest, hspan, rfl, .point hdigits⟩
  · exact ⟨[], [], _, rfl, rfl, .none⟩

theorem WritesExponent.head {cs : List Char} {n : ℤ} (h : WritesExponent cs n) :
    ∀ c ∈ cs.head?, c.isDigit = false ∧ c ≠ '.' := by
  cases h with
  | none => simp
  | mark hmark _ _ _ =>
    intro c hc
    obtain rfl : _ = c := Option.some.inj hc
    rcases hmark with rfl | rfl <;> decide

theorem WritesFraction.spanFraction_append {point fraction rest : List Char}
    (h : WritesFraction point fraction) (hrest : ∀ c ∈ rest.head?, c.isDigit = false ∧ c ≠ '.') :
    spanFraction (point ++ rest) = (fraction, rest) := by
  cases h with
  | none =>
    rw [List.nil_append]
    unfold spanFraction
    split
    · exact absurd rfl (hrest '.' rfl).2
    · rfl
  | point hdigits => exact spanDigits_append hdigits rest fun c hc => (hrest c hc).1

theorem WritesFraction.head {point fraction rest : List Char} (h : WritesFraction point fraction)
    (hrest : ∀ c ∈ rest.head?, c.isDigit = false ∧ c ≠ '.') :
    ∀ c ∈ (point ++ rest).head?, c.isDigit = false := by
  cases h with
  | none => exact fun c hc => (hrest c hc).1
  | point _ =>
    intro c hc
    obtain rfl : '.' = c := Option.some.inj hc
    rfl

/-- The digits that are read are those of the grammar, with their number. -/
theorem exists_readDecimal?_iff {cs : List Char} {q : ℚ} :
    (∃ d, readDecimal? cs = some d ∧ d.number = q) ↔ WritesDecimal cs q := by
  constructor
  · rintro ⟨d, h, rfl⟩
    obtain ⟨whole, rest, hspan, rfl, hwhole⟩ := exists_spanDigits cs
    obtain ⟨point, fraction, power, hspan', rfl, hfraction⟩ := exists_spanFraction rest
    unfold readDecimal? at h
    simp only [hspan, hspan'] at h
    split at h
    · cases h
    · rename_i hne
      obtain ⟨n, hn, rfl⟩ := Option.map_eq_some_iff.mp h
      exact .intro hwhole hfraction (by rw [hne]; exact List.cons_ne_nil _ _)
        (readExponent?_eq_some_iff.mp hn)
  · rintro ⟨hwhole, hfraction, hne, hpower⟩
    have hpower' := readExponent?_eq_some_iff.mpr hpower
    have hspan := spanDigits_append hwhole _ (hfraction.head hpower.head)
    have hspan' := hfraction.spanFraction_append hpower.head
    unfold readDecimal?
    simp only [hspan, hspan', hpower']
    split
    · exact absurd ‹_› hne
    · exact ⟨_, rfl, rfl⟩

theorem isAlpha_toLower_of_isDigit {c : Char} (h : c.isDigit = true) :
    c.toLower.isAlpha = false := by
  have hle : 48 ≤ c.toNat ∧ c.toNat ≤ 57 := by
    simpa [Char.isDigit, UInt32.le_iff_toNat_le] using h
  have hlower : c.toLower = c := by
    apply Char.toNat_inj.mp
    rw [Text.toNat_toLower, if_neg (by omega)]
  rw [hlower]
  simp only [Char.isAlpha, Char.isUpper, Char.isLower, Bool.or_eq_false_iff, Bool.decide_and,
    Bool.and_eq_false_imp, decide_eq_true_eq, decide_eq_false_iff_not, ge_iff_le,
    UInt32.le_iff_toNat_le, Char.reduceVal, UInt32.reduceToNat, Char.toNat_val]
  omega

/-- Digits and a point do not begin with a letter or a sign. -/
theorem WritesDecimal.exists_cons {cs : List Char} {q : ℚ} (h : WritesDecimal cs q) :
    ∃ c rest, cs = c :: rest ∧ c.toLower.isAlpha = false ∧ c ≠ '-' ∧ c ≠ '+' := by
  obtain ⟨hwhole, hfraction, hne, -⟩ := h
  rename_i whole point fraction power exponent
  cases whole with
  | cons c whole =>
    have hdigit := hwhole c List.mem_cons_self
    exact ⟨c, _, rfl, isAlpha_toLower_of_isDigit hdigit, ne_sign_of_allDigits hwhole c rfl⟩
  | nil =>
    cases hfraction with
    | none => exact absurd rfl hne
    | point _ => exact ⟨'.', _, rfl, by decide⟩

theorem WritesDecimal.ne_sign {cs : List Char} {q : ℚ} (h : WritesDecimal cs q) :
    ∀ c ∈ cs.head?, c ≠ '-' ∧ c ≠ '+' := by
  obtain ⟨c, rest, rfl, -, hc⟩ := h.exists_cons
  rintro d ⟨⟩
  exact hc

/-- So they are no word. -/
theorem WritesDecimal.ne_word {cs word : List Char} {q : ℚ} (h : WritesDecimal cs q) {c : Char}
    (hc : c.isAlpha = true) : cs.map Char.toLower ≠ c :: word := by
  obtain ⟨d, rest, rfl, hd, -⟩ := h.exists_cons
  intro heq
  rw [(List.cons.inj heq).1, hc] at hd
  exact Bool.noConfusion hd

/-! ### The reader -/

theorem readMagnitude?_infinity {word : List Char}
    (h : word.map Char.toLower = "inf".toList ∨ word.map Char.toLower = "infinity".toList) :
    readMagnitude? word = some (1.0 / 0.0) := by
  unfold readMagnitude?
  simp only [← String.toList_inj, String.toList_ofList]
  rw [if_pos h]

theorem readMagnitude?_notANumber {word : List Char} (h : word.map Char.toLower = "nan".toList) :
    readMagnitude? word = some (0.0 / 0.0) := by
  unfold readMagnitude?
  simp only [← String.toList_inj, String.toList_ofList]
  rw [h, if_neg (by decide), if_pos rfl]

theorem WritesDecimal.exists_readMagnitude? {cs : List Char} {q : ℚ} (h : WritesDecimal cs q) :
    ∃ d : Decimal, d.number = q ∧ readMagnitude? cs = some d.toFloat := by
  obtain ⟨d, hread, hnumber⟩ := exists_readDecimal?_iff.mpr h
  refine ⟨d, hnumber, ?_⟩
  unfold readMagnitude?
  simp only [← String.toList_inj, String.toList_ofList]
  rw [if_neg, if_neg, hread]
  · rfl
  · exact h.ne_word (c := 'n') rfl
  · exact not_or.mpr ⟨h.ne_word (c := 'i') rfl, h.ne_word (c := 'i') rfl⟩

theorem readMagnitude?_cases {cs : List Char} {x : Float} (h : readMagnitude? cs = some x) :
    ((cs.map Char.toLower = "inf".toList ∨ cs.map Char.toLower = "infinity".toList) ∧
      x = 1.0 / 0.0) ∨
      (cs.map Char.toLower = "nan".toList ∧ x = 0.0 / 0.0) ∨
      ∃ d : Decimal, WritesDecimal cs d.number ∧ x = d.toFloat := by
  unfold readMagnitude? at h
  simp only [← String.toList_inj, String.toList_ofList] at h
  split_ifs at h with hinfinity hnan
  · exact .inl ⟨hinfinity, (Option.some.inj h).symm⟩
  · exact .inr (.inl ⟨hnan, (Option.some.inj h).symm⟩)
  · obtain ⟨d, hread, rfl⟩ := Option.map_eq_some_iff.mp h
    exact .inr (.inr ⟨d, exists_readDecimal?_iff.mp ⟨d, hread, rfl⟩, rfl⟩)

theorem ne_sign_of_word {cs word : List Char} {c : Char} (hc : c.isAlpha = true)
    (h : cs.map Char.toLower = c :: word) : ∀ d ∈ cs.head?, d ≠ '-' ∧ d ≠ '+' := by
  intro d hd
  obtain ⟨rest, rfl⟩ := List.head?_eq_some_iff.mp hd
  obtain rfl := (List.cons.inj h).1
  constructor <;> rintro rfl <;> exact absurd hc (by decide)

theorem unpack_negateIf_infinity (negative : Bool) :
    (negateIf negative (1.0 / 0.0)).toModel.unpack = .infinity (signOf negative) := by
  cases negative <;> rfl

theorem unpack_negateIf_notANumber (negative : Bool) :
    (negateIf negative (0.0 / 0.0)).toModel.unpack = .notANumber := by
  cases negative <;> rfl

theorem isNearest_negateIf (negative : Bool) (d : Decimal) :
    IsNearest negative d.number (negateIf negative d.toFloat) := by
  cases negative with
  | false => exact isNearest_toFloat d
  | true => exact (isNearest_toFloat d).neg

theorem read?_of_append {text : String} {sign rest : List Char} {negative : Bool}
    (hsign : WritesSign sign negative) (hrest : ∀ c ∈ rest.head?, c ≠ '-' ∧ c ≠ '+')
    (htext : text.toList = sign ++ rest) :
    read? text = (readMagnitude? rest).map (negateIf negative) := by
  unfold read?
  rw [htext, hsign.spanSign_append hrest]

/-- The reader takes the texts of the grammar, each for the double that it writes. -/
theorem read?_eq_some_iff {text : String} {x : Float} :
    read? text = some x ↔ WritesFloat text.toList x := by
  constructor
  · intro h
    obtain ⟨sign, negative, rest, hspan, htext, hsign⟩ := exists_spanSign text.toList
    unfold read? at h
    rw [hspan] at h
    obtain ⟨y, hread, rfl⟩ := Option.map_eq_some_iff.mp h
    rw [htext]
    rcases readMagnitude?_cases hread with ⟨hword, rfl⟩ | ⟨hword, rfl⟩ | ⟨d, hdigits, rfl⟩
    · exact .infinity hsign hword (unpack_negateIf_infinity negative)
    · exact .notANumber hsign hword (unpack_negateIf_notANumber negative)
    · exact .decimal hsign hdigits (isNearest_negateIf negative d)
  · intro h
    -- the double that is read is written too, and a text writes one double only
    generalize htext : text.toList = cs at h
    cases h with
    | infinity hsign hword hx =>
      have hrest := hword.elim (ne_sign_of_word (c := 'i') rfl) (ne_sign_of_word (c := 'i') rfl)
      rw [read?_of_append hsign hrest htext, readMagnitude?_infinity hword]
      exact congrArg some (eq_of_unpack_eq ((unpack_negateIf_infinity _).trans hx.symm))
    | notANumber hsign hword hx =>
      rw [read?_of_append hsign (ne_sign_of_word (c := 'n') rfl hword) htext,
        readMagnitude?_notANumber hword]
      exact congrArg some (eq_of_unpack_eq ((unpack_negateIf_notANumber _).trans hx.symm))
    | decimal hsign hdigits hx =>
      obtain ⟨d, rfl, hread⟩ := hdigits.exists_readMagnitude?
      rw [read?_of_append hsign hdigits.ne_sign htext, hread]
      exact congrArg some ((isNearest_negateIf _ d).unique hx)

/-- A word does not begin with a sign. -/
theorem WritesSign.of_word {sign rest word : List Char} {negative : Bool}
    (hsign : WritesSign sign negative) {c : Char} (hc : c.isAlpha = true)
    (h : (sign ++ rest).map Char.toLower = c :: word) : rest.map Char.toLower = c :: word := by
  cases hsign with
  | none => exact h
  | plus =>
    obtain rfl := (List.cons.inj h).1
    exact absurd hc (by decide)
  | minus =>
    obtain rfl := (List.cons.inj h).1
    exact absurd hc (by decide)

/-- A literal is no word with any other first letter than those of its own words. -/
theorem WritesFloat.ne_word {cs word : List Char} {x : Float} (h : WritesFloat cs x) {c : Char}
    (hc : c.isAlpha = true) (hi : c ≠ 'i') (hn : c ≠ 'n') : cs.map Char.toLower ≠ c :: word := by
  intro heq
  cases h with
  | infinity hsign hword _ =>
    have hrest := hsign.of_word hc heq
    rcases hword with hword | hword
    · exact hi (List.cons.inj (hrest.symm.trans hword)).1
    · exact hi (List.cons.inj (hrest.symm.trans hword)).1
  | notANumber hsign hword _ => exact hn (List.cons.inj ((hsign.of_word hc heq).symm.trans hword)).1
  | decimal hsign hdigits _ => exact hdigits.ne_word hc (hsign.of_word hc heq)

/-! ### Written doubles -/

theorem writesDecimal_of_splits {d : Decimal} {whole point fraction : List Char}
    (h : d.Splits whole fraction) (hpoint : WritesFraction point fraction) :
    WritesDecimal (whole ++ point) d.number := by
  have hnumber :
      (Nat.ofDigitChars 10 (whole ++ fraction) 0 : ℚ) * 10 ^ (0 - fraction.length : ℤ) = d.number :=
    h.number_eq
  rw [← hnumber]
  have hne : whole ++ fraction ≠ [] := List.append_ne_nil_of_left_ne_nil h.isNumeral.ne_nil _
  have hwritten := WritesDecimal.intro h.isNumeral.allDigits hpoint hne .none
  rwa [List.append_nil] at hwritten

theorem writesDecimal_of_exponent_neg {d : Decimal} (hd : d.exponent < 0) :
    WritesDecimal d.positional d.number := by
  obtain ⟨whole, fraction, htext, -, hsplits⟩ := splits_of_exponent_neg hd
  rw [htext]
  exact writesDecimal_of_splits hsplits (.point hsplits.allDigits)

theorem writesDecimal_positional {d : Decimal} (hd : d.IsNormal) :
    WritesDecimal d.positional d.number := by
  rcases lt_or_ge d.exponent 0 with hlt | hge
  · exact writesDecimal_of_exponent_neg hlt
  · have hwritten := writesDecimal_of_splits (splits_of_exponent_nonneg hd hge) .none
    rwa [List.append_nil] at hwritten

theorem exists_signed (negative : Bool) (cs : List Char) :
    ∃ sign, WritesSign sign negative ∧ signed negative cs = sign ++ cs := by
  cases negative with
  | false => exact ⟨[], .none, rfl⟩
  | true => exact ⟨['-'], .minus, rfl⟩

/-- In running text every double is written as a literal for it. -/
theorem writesFloat_plain (x : Float) : WritesFloat (plain x).toList x := by
  cases hx : x.isFinite with
  | true =>
    obtain ⟨negative, d, hd, -, rfl, htext⟩ := plainStyle.exists_layout hx
    obtain ⟨sign, hsign, hsigned⟩ := exists_signed negative d.positional
    change (plainStyle.write _).toList = signed negative d.positional at htext
    unfold plain
    rw [htext, hsigned]
    exact .decimal hsign (writesDecimal_positional hd) (isNearest_negateIf negative d)
  | false =>
    change x.toModel.unpack.isFinite = false at hx
    unfold plain Style.write shape
    cases hu : x.toModel.unpack with
    | notANumber =>
      change WritesFloat ([] ++ "NaN".toList) x
      exact .notANumber .none rfl hu
    | infinity s =>
      obtain ⟨sign, hsign, hsigned⟩ := exists_signed (s == .negative) "inf".toList
      rw [String.toList_ofList, hsigned]
      refine .infinity hsign (.inl rfl) ?_
      rw [hu]
      cases s <;> rfl
    | zero s => simp [hu, Float.Model.UnpackedFloat.isFinite] at hx
    | finite s m e hm => simp [hu, Float.Model.UnpackedFloat.isFinite] at hx

theorem isBlank_of_isNumberChar {c : Char} (h : isNumberChar c = true) :
    Text.isBlank c = false := by
  have hcode : 45 ≤ c.toNat ∧ c.toNat ≤ 122 := by
    simp only [isNumberChar, Char.isAlphanum, Char.isAlpha, Char.isUpper, Char.isLower,
      Char.isDigit, Bool.or_eq_true, Bool.and_eq_true, decide_eq_true_eq, beq_iff_eq,
      UInt32.le_iff_toNat_le, ge_iff_le, ← Char.toNat_inj, Char.reduceVal, UInt32.reduceToNat,
      Char.toNat_val, Char.reduceToNat] at h
    omega
  simp only [Text.isBlank, Bool.or_eq_false_iff, Bool.and_eq_false_iff, decide_eq_false_iff_not,
    beq_eq_false_iff_ne]
  omega

theorem trim_plain (x : Float) : Text.trim (plain x) = plain x :=
  Text.trim_eq_self fun c hc => isBlank_of_isNumberChar (isNumberChar_of_mem_plain x c hc)

end DesignTokens.Number

import DesignTokens.Proofs.Contrast.Ratio
import DesignTokens.Proofs.Number.Grammar
import DesignTokens.Proofs.Number.Threshold
import DesignTokens.Proofs.Text.Lines

/-!
# What a verdict says

The message of a verdict compares two printed numbers: the ratio with two decimal places, and the
required ratio.  The outcome is decided on the unrounded ratio, the message shows a rounded one.
`Statement.read?` reads what the message says, and `message_is_true_iff` says when that is true: it
is false exactly if the ratio is below the required one by at most `0.005`, for then the message
says that a number is less than itself.
-/

namespace DesignTokens

open Number

namespace Verdict

/-- What the message of a verdict says: its level, its outcome, and the two numbers that it
compares. -/
structure Statement where
  level : Level
  passes : Bool
  ratio : Decimal
  required : Decimal
deriving DecidableEq

namespace Statement

/-- Whether the numbers stand in the relation that goes with the outcome: the ratio is not less than
what is required if the outcome is a pass, and less if it is a failure. -/
def IsTrue (statement : Statement) : Prop :=
  statement.passes = true ↔ statement.required.number ≤ statement.ratio.number

instance decidableIsTrue (statement : Statement) : Decidable statement.IsTrue :=
  inferInstanceAs (Decidable (_ ↔ _))

/-- `✓ Passes ≥` or `✗ Fails <`. -/
def outcome? (mark word relation : String) : Option Bool :=
  if (mark, word, relation) = ("✓", "Passes", ">=") then some true
  else if (mark, word, relation) = ("✗", "Fails", "<") then some false
  else none

/-- A number followed by `:1`, between `opening` and `closing`. -/
def number? (opening closing word : String) : Option Decimal :=
  let cs := word.toList.drop opening.length
  if word.toList.take opening.length = opening.toList ∧
    cs.dropWhile (· != ':') = ':' :: '1' :: closing.toList then
    readDecimal? (cs.takeWhile (· != ':'))
  else none

/-- Reads a line as a statement. -/
def read? (message : String) : Option Statement :=
  match Text.parts ' ' message with
  | [mark, word, "WCAG", level, ratio, relation, required] => do
    let passes ← outcome? mark word relation
    let level ← Level.ofName? level
    let ratio ← number? "(" "" ratio
    let required ← number? "" ")" required
    return { level, passes, ratio, required }
  | _ => none

/-- A number is read from between `opening` and `closing`. -/
theorem number?_append (opening closing : String) {number : String}
    (hnumber : ∀ c ∈ number.toList, isNumberChar c = true) :
    number? opening closing (opening ++ number ++ ":1" ++ closing) =
      readDecimal? number.toList := by
  have hcolon : ∀ c ∈ number.toList, (c != ':') = true := by
    intro c hc
    rw [bne_iff_ne]
    rintro rfl
    exact absurd (hnumber ':' hc) (by decide)
  have hword : (opening ++ number ++ ":1" ++ closing).toList =
      opening.toList ++ (number.toList ++ ':' :: '1' :: closing.toList) := by
    simp
  have hlength : opening.length = opening.toList.length := String.length_toList.symm
  obtain ⟨htake, hdrop⟩ := Text.run_append hcolon (':' :: '1' :: closing.toList) (by simp)
  unfold number?
  dsimp only
  rw [hword, hlength, List.take_left, List.drop_left, htake, hdrop]
  simp

end Statement

variable {verdict : Verdict} {ratio required : Decimal}

/-- The words of a message. -/
theorem parts_message (verdict : Verdict) :
    Text.parts ' ' verdict.message =
      [if verdict.passes then "✓" else "✗", if verdict.passes then "Passes" else "Fails", "WCAG",
        verdict.level.name,
        "(" ++ fixed 2 verdict.ratio ++ ":1" ++ "", if verdict.passes then ">=" else "<",
        "" ++ plain verdict.required ++ ":1" ++ ")"] := by
  have hblank : ∀ {text : String}, (∀ c ∈ text.toList, isNumberChar c = true) → ' ' ∉ text.toList :=
    fun h hmem => absurd (h ' ' hmem) (by decide)
  have hratio := hblank (isNumberChar_of_mem_fixed two_ne_zero verdict.ratio)
  have hrequired := hblank (isNumberChar_of_mem_plain verdict.required)
  have hname : ' ' ∉ verdict.level.name.toList := by cases verdict.level <;> decide
  rw [← Text.parts_intercalate ' ' (List.cons_ne_nil _ _)]
  · congr 1
    rw [← String.toList_inj]
    unfold message
    cases verdict.passes <;> simp [toString]
  · cases verdict.passes <;> simp [hratio, hrequired, hname]

/-- A message states the verdict, with the numbers as they are printed. -/
theorem read?_message (hratio : readDecimal? (fixed 2 verdict.ratio).toList = some ratio)
    (hrequired : readDecimal? (plain verdict.required).toList = some required) :
    Statement.read? verdict.message = some ⟨verdict.level, verdict.passes, ratio, required⟩ := by
  have hname : Level.ofName? verdict.level.name = some verdict.level := by
    cases verdict.level <;> rfl
  unfold Statement.read?
  rw [parts_message]
  simp only
  rw [Statement.number?_append "(" "" (isNumberChar_of_mem_fixed two_ne_zero verdict.ratio), hratio,
    Statement.number?_append "" ")" (isNumberChar_of_mem_plain verdict.required), hrequired, hname]
  cases verdict.passes <;> rfl

/-- The required ratio is printed exactly. -/
theorem exists_readDecimal?_requiredRatio (level : Level) (large : Bool) :
    ∃ required, readDecimal? (plain (level.requiredRatio large)).toList = some required ∧
      required.number = value (level.requiredRatio large) := by
  cases level <;> cases large
  · exact ⟨⟨45, -1⟩, by decide +kernel⟩
  · exact ⟨⟨3, 0⟩, by decide +kernel⟩
  · exact ⟨⟨7, 0⟩, by decide +kernel⟩
  · exact ⟨⟨45, -1⟩, by decide +kernel⟩

/-- The required ratio is an even number of hundredths. -/
theorem exists_even_hundredths (level : Level) (large : Bool) :
    ∃ m : ℤ, m % 2 = 0 ∧ value (level.requiredRatio large) * 100 = m := by
  cases level <;> cases large
  · exact ⟨450, by decide +kernel⟩
  · exact ⟨300, by decide +kernel⟩
  · exact ⟨700, by decide +kernel⟩
  · exact ⟨450, by decide +kernel⟩

/-- The printed ratio is the nearest number of hundredths. -/
theorem exists_readDecimal?_ratio (foreground background : Rgb) :
    ∃ ratio, readDecimal? (fixed 2 (Contrast.ratio foreground background)).toList = some ratio ∧
      ratio.number * 100 = nearestEven (value (Contrast.ratio foreground background) * 100) := by
  have hpos : 0 < value (Contrast.ratio foreground background) :=
    one_pos.trans_le (Contrast.one_le_value_ratio foreground background)
  obtain ⟨n, hn, htext⟩ :=
    fixed_of_pos two_ne_zero (Contrast.ratio_isFinite foreground background) hpos
  have hwritten := writesDecimal_of_exponent_neg (d := ⟨n, -(2 : ℕ)⟩) (by norm_num)
  obtain ⟨ratio, hread, hnumber⟩ := exists_readDecimal?_iff.mpr hwritten
  refine ⟨ratio, by rw [htext, String.toList_ofList, hread], ?_⟩
  have hhundred : (10 : ℚ) ^ (-((2 : ℕ) : ℤ)) * 100 = 1 := by norm_num
  have hvalue : value (Contrast.ratio foreground background) * 100 =
      value (Contrast.ratio foreground background) * 10 ^ 2 := by norm_num
  rw [hnumber, Decimal.number, mul_assoc, hhundred, mul_one, hvalue, ← hn, Int.cast_natCast]

section Hundredths

variable {bound exact printed : ℚ} {m : ℤ}

/-- A number rounded to hundredths reaches a bound of an even number of hundredths exactly if it is
at least the bound less `0.005`. -/
theorem le_hundredths_iff (heven : m % 2 = 0) (hm : bound * 100 = m)
    (hprinted : printed * 100 = nearestEven (exact * 100)) :
    bound ≤ printed ↔ bound - 1 / 200 ≤ exact := by
  calc bound ≤ printed ↔ (m : ℚ) ≤ nearestEven (exact * 100) := by
        rw [← hm, ← hprinted, mul_le_mul_iff_left₀ (by norm_num)]
    _ ↔ (m : ℚ) - 1 / 2 ≤ exact * 100 := by rw [Int.cast_le, le_nearestEven_iff heven]
    _ ↔ bound - 1 / 200 ≤ exact := by
        rw [← hm]
        constructor <;> intro h <;> linarith

theorem hundredths_le (hm : bound * 100 = m) (hprinted : printed * 100 = nearestEven (exact * 100))
    (h : exact ≤ bound) : printed ≤ bound := by
  have hmono := nearestEven_mono (show exact * 100 ≤ (m : ℚ) by linarith)
  rw [nearestEven_intCast] at hmono
  have hle : (nearestEven (exact * 100) : ℚ) ≤ m := by exact_mod_cast hmono
  linarith

end Hundredths

/-- Every message states the verdict, and its comparison is true unless the ratio is below the
required one by at most `0.005`.  Then the ratio is printed as the required ratio, so that the
message says that a number is less than itself; a message that says that the colours pass is never
false. -/
theorem message_is_true_iff (foreground background : Rgb) (level : Level) (large : Bool) :
    ∃ statement, Statement.read? (evaluate foreground background level large).message =
      some statement ∧
      statement.level = level ∧
      statement.passes = (evaluate foreground background level large).passes ∧
      statement.required.number = value (level.requiredRatio large) ∧
      statement.ratio.number * 100 =
        nearestEven (value (Contrast.ratio foreground background) * 100) ∧
      (statement.IsTrue ↔
        ¬(value (level.requiredRatio large) - 1 / 200 ≤
          value (Contrast.ratio foreground background) ∧
          value (Contrast.ratio foreground background) < value (level.requiredRatio large))) ∧
      (¬statement.IsTrue →
        statement.passes = false ∧ statement.ratio.number = statement.required.number) := by
  obtain ⟨ratio, hread, hratio⟩ := exists_readDecimal?_ratio foreground background
  obtain ⟨required, hread', hrequired⟩ := exists_readDecimal?_requiredRatio level large
  obtain ⟨m, heven, hm⟩ := exists_even_hundredths level large
  have hfinite : (level.requiredRatio large).isFinite = true := by
    cases level <;> cases large <;> decide
  have hpasses : (evaluate foreground background level large).passes = true ↔
      value (level.requiredRatio large) ≤ value (Contrast.ratio foreground background) := by
    rw [passes_evaluate_iff,
      le_iff_value_le hfinite (Contrast.ratio_isFinite foreground background)]
  have hprinted := le_hundredths_iff heven hm hratio
  have htrue :
      (⟨level, (evaluate foreground background level large).passes, ratio, required⟩ :
        Statement).IsTrue ↔
      ¬(value (level.requiredRatio large) - 1 / 200 ≤ value (Contrast.ratio foreground background) ∧
        value (Contrast.ratio foreground background) < value (level.requiredRatio large)) := by
    unfold Statement.IsTrue
    rw [hrequired, hprinted, hpasses, not_and, not_lt]
    constructor
    · intro h
      exact h.mpr
    · intro h
      exact ⟨fun hle => by linarith, h⟩
  refine ⟨_, read?_message hread hread', rfl, rfl, hrequired, hratio, htrue, ?_⟩
  intro hfalse
  obtain ⟨hclose, hless⟩ := not_not.mp (mt htrue.mpr hfalse)
  refine ⟨?_, le_antisymm ?_ ?_⟩
  · rw [Bool.eq_false_iff, ne_eq, hpasses]
    exact not_le.mpr hless
  · rw [hrequired]
    exact hundredths_le hm hratio hless.le
  · rw [hrequired]
    exact hprinted.mpr hclose

/-- A ratio just below 3. -/
example :
    (evaluate ⟨149, 149, 149⟩ .white .aa true).message = "✗ Fails WCAG AA (3.00:1 < 3:1)" := by
  decide +kernel

end Verdict

end DesignTokens

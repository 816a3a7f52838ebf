import DesignTokens.Proofs.Number.Grammar
import DesignTokens.Proofs.Settings.Document

/-!
# Ratios as strings

A string is parsed as a preset, as a number or not at all, after it is trimmed: the name of a preset
in any case, or a literal.  No name is a literal, since it does not begin as `inf`, `infinity` or
`nan` do (`Preset.ne_of_writesFloat`), so that it does not matter which is tried first.  `parse` is
a left inverse of `toText` and `ofDatum?` of `toDatum` (`ratio_survives_text`).
-/

namespace DesignTokens

open Number

namespace Preset

theorem exists_name_eq (preset : Preset) :
    ∃ c word, preset.name.toList = c :: word ∧ c.isAlpha = true ∧ c ≠ 'i' ∧ c ≠ 'n' := by
  cases preset <;> exact ⟨_, _, rfl, by decide⟩

/-- No name is a literal. -/
theorem ne_of_writesFloat {cs : List Char} {x : Float} (h : WritesFloat cs x) (preset : Preset) :
    cs.map Char.toLower ≠ preset.name.toList := by
  obtain ⟨c, word, hname, hc, hi, hn⟩ := preset.exists_name_eq
  rw [hname]
  exact h.ne_word hc hi hn

theorem map_toLower_name (preset : Preset) :
    preset.name.toList.map Char.toLower = preset.name.toList := by
  cases preset <;> rfl

/-- A string names a preset exactly if it is the name in any case, up to surrounding whitespace. -/
theorem ofName?_eq_some_iff {text : String} {preset : Preset} :
    ofName? text = some preset ↔ (Text.trim text).toList.map Char.toLower = preset.name.toList := by
  constructor
  · intro h
    have hsame := List.find?_some h
    rw [Text.sameIgnoringCase, beq_iff_eq, map_toLower_name] at hsame
    exact hsame.symm
  · intro h
    unfold ofName? Text.sameIgnoringCase
    dsimp only
    rw [h]
    cases preset <;> rfl

end Preset

namespace Ratio

variable {text : String}

theorem parse_eq_ok_preset_iff {preset : Preset} :
    parse text = .ok (.preset preset) ↔
      (Text.trim text).toList.map Char.toLower = preset.name.toList := by
  rw [← Preset.ofName?_eq_some_iff]
  unfold parse
  cases Preset.ofName? text with
  | some p => simp
  | none => cases read? (Text.trim text) <;> simp

theorem parse_eq_ok_custom_iff {x : Float} :
    parse text = .ok (.custom x) ↔ WritesFloat (Text.trim text).toList x := by
  rw [← read?_eq_some_iff]
  unfold parse
  cases hname : Preset.ofName? text with
  | some p =>
    -- what has a name is no literal
    have hread : read? (Text.trim text) ≠ some x := by
      intro hread
      exact Preset.ne_of_writesFloat (read?_eq_some_iff.mp hread) p
        (Preset.ofName?_eq_some_iff.mp hname)
    simpa using hread
  | none => cases read? (Text.trim text) <;> simp

theorem parse_eq_error_iff {fault : Fault} :
    parse text = .error fault ↔
      fault = .unknownRatio (Text.trim text) ∧
        (∀ preset : Preset, (Text.trim text).toList.map Char.toLower ≠ preset.name.toList) ∧
        ∀ x, ¬WritesFloat (Text.trim text).toList x := by
  simp only [← read?_eq_some_iff, ne_eq, ← Preset.ofName?_eq_some_iff]
  unfold parse
  cases Preset.ofName? text with
  | some p => simp
  | none => cases read? (Text.trim text) <;> simp [eq_comm]

/-- Parsing depends on the trimmed string alone. -/
theorem parse_congr {other : String} (h : Text.trim text = Text.trim other) :
    parse text = parse other := by
  unfold parse Preset.ofName?
  rw [h]

/-- `parse` is a left inverse of `toText`. -/
theorem parse_toText (ratio : Ratio) : parse ratio.toText = .ok ratio := by
  cases ratio with
  | preset p =>
    unfold parse toText
    dsimp only
    rw [Preset.ofName?_name]
  | custom x =>
    rw [parse_eq_ok_custom_iff, toText, trim_plain]
    exact writesFloat_plain x

end Ratio

/-- `parse` is a left inverse of `toText` and `ofDatum?` of `toDatum`, for every preset and every
double, NaN included.  A string is parsed as a preset exactly if it is its name, as a number exactly
if it is a literal of the number, and otherwise refused; case does not matter for a name, and
surrounding whitespace for neither. -/
theorem ratio_survives_text :
    (∀ ratio : Ratio,
      Ratio.parse ratio.toText = .ok ratio ∧ Ratio.ofDatum? ratio.toDatum = some ratio) ∧
      ∀ text : String,
        (∀ preset : Preset, Ratio.parse text = .ok (.preset preset) ↔
          (Text.trim text).toList.map Char.toLower = preset.name.toList) ∧
        (∀ x : Float, Ratio.parse text = .ok (.custom x) ↔ WritesFloat (Text.trim text).toList x) ∧
        ((∃ fault, Ratio.parse text = .error fault ∧
            fault.message = "Configuration error: unknown ratio '" ++ Text.trim text ++
              "' (expected a preset name such as 'perfect-fourth' or a number)") ↔
          (∀ preset : Preset, (Text.trim text).toList.map Char.toLower ≠ preset.name.toList) ∧
            ∀ x, ¬WritesFloat (Text.trim text).toList x) ∧
        ∀ before after : String, (∀ c ∈ before.toList, Text.isBlank c = true) →
          (∀ c ∈ after.toList, Text.isBlank c = true) →
            Ratio.parse (before ++ text ++ after) = Ratio.parse text := by
  refine ⟨fun ratio => ⟨ratio.parse_toText, ratio.ofDatum?_toDatum⟩, ?_⟩
  intro text
  refine ⟨fun preset => Ratio.parse_eq_ok_preset_iff, fun x => Ratio.parse_eq_ok_custom_iff, ?_, ?_⟩
  · constructor
    · rintro ⟨fault, hfault, -⟩
      exact (Ratio.parse_eq_error_iff.mp hfault).2
    · intro h
      exact ⟨.unknownRatio (Text.trim text), Ratio.parse_eq_error_iff.mpr ⟨rfl, h⟩, rfl⟩
  · intro before after hbefore hafter
    exact Ratio.parse_congr (Text.trim_append text hbefore hafter)

/-- A name in mixed case and a literal that underflows, both between blanks. -/
theorem ratio_survives_text_blanks :
    Ratio.parse ("\u2003" ++ "Golden-RATIO" ++ "\t\n") = .ok (.preset .goldenRatio) ∧
      Ratio.parse ("\u2003" ++ "-.5E-400" ++ "\t\n") = .ok (.custom (-0.0)) := by
  have hbefore : ∀ c ∈ "\u2003".toList, Text.isBlank c = true := List.all_eq_true.mp (by decide)
  have hafter : ∀ c ∈ "\t\n".toList, Text.isBlank c = true := List.all_eq_true.mp (by decide)
  obtain ⟨hpreset, -, -, hblanks⟩ := ratio_survives_text.2 "Golden-RATIO"
  obtain ⟨-, -, -, hblanks'⟩ := ratio_survives_text.2 "-.5E-400"
  refine ⟨?_, ?_⟩
  · rw [hblanks _ _ hbefore hafter]
    exact (hpreset .goldenRatio).mpr rfl
  · rw [hblanks' _ _ hbefore hafter]
    decide +kernel

end DesignTokens

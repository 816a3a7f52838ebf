import DesignTokens.Proofs.Color.Range
import DesignTokens.Proofs.Palette.Readable

/-!
# Near-grey palettes

A palette that is named `neutral`, in whatever case of letters, is near grey at every hue: the
channels of each of its shades lie between two bytes that only the curve decides, and these are
close to each other all along the curve (`neutral_stays_near_grey`).
-/

namespace DesignTokens

namespace Shade

/-- All along the curve of near-grey palettes the channels have little room. -/
theorem neutral_ends_near :
    ∀ point ∈ curve .neutral, Hsl.upperEnd point.1 point.2 ≤ Hsl.lowerEnd point.1 point.2 + 13 := by
  decide +kernel

end Shade

namespace PaletteKind

theorem ofPaletteName_eq_neutral_iff (name : String) :
    ofPaletteName name = .neutral ↔ name.toList.map Char.toLower = "neutral".toList := by
  have hsame :
      Text.sameIgnoringCase name "neutral" = true ↔
        name.toList.map Char.toLower = "neutral".toList :=
    beq_iff_eq
  unfold ofPaletteName
  rw [← hsame]
  split_ifs with h
  · simp [h]
  · simp [h]

end PaletteKind

namespace Palette

/-- The shades of a ramp take saturation and lightness from the curve of its kind. -/
theorem exists_point_of_mem_ramp {kind : PaletteKind} {hue : Float} {shade : Shade}
    (h : shade ∈ ramp kind hue) :
    ∃ point ∈ Shade.curve kind, shade.color = Hsl.toRgb ⟨hue, point.1, point.2⟩ := by
  obtain ⟨⟨key, point⟩, hmem, rfl⟩ := List.mem_map.mp h
  exact ⟨point, (List.of_mem_zip hmem).2, rfl⟩

/-- Every shade of a palette whose name is `neutral`, but for the case of its letters, has channels
at most thirteen apart, at any hue. -/
theorem neutral_stays_near_grey {name : String}
    (hname : name.toList.map Char.toLower = "neutral".toList) (hue : Float) :
    (generate hue name).shades.length = 11 ∧
      ∀ shade ∈ (generate hue name).shades, shade.color.greatest ≤ shade.color.least + 13 := by
  refine ⟨length_shades_generate hue name, ?_⟩
  intro shade hshade
  have hkind := (PaletteKind.ofPaletteName_eq_neutral_iff name).mpr hname
  obtain ⟨⟨s, l⟩, hpoint, hcolor⟩ := exists_point_of_mem_ramp hshade
  rw [hkind] at hpoint
  rw [hcolor]
  calc (Hsl.toRgb ⟨normalizeHue hue, s, l⟩).greatest ≤ Hsl.upperEnd s l :=
      Hsl.greatest_toRgb_le _ s l
    _ ≤ Hsl.lowerEnd s l + 13 := Shade.neutral_ends_near (s, l) hpoint
    _ ≤ (Hsl.toRgb ⟨normalizeHue hue, s, l⟩).least + 13 :=
      Nat.add_le_add_right (Hsl.le_least_toRgb _ s l) 13

/-- A hue a hair below zero, under a name in mixed case. -/
theorem neutral_stays_near_grey_mixed :
    "NeuTRAL".toList.map Char.toLower = "neutral".toList ∧
    (generate (-1e-20) "NeuTRAL").shades.length = 11 ∧
      ∀ shade ∈ (generate (-1e-20) "NeuTRAL").shades,
        shade.color.greatest ≤ shade.color.least + 13 := by
  have hname : "NeuTRAL".toList.map Char.toLower = "neutral".toList := by decide
  exact ⟨hname, neutral_stays_near_grey hname (-1e-20)⟩

end Palette

end DesignTokens

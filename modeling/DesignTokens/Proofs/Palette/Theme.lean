import DesignTokens.Palette.Export
import DesignTokens.Proofs.Json.RoundTrip
import DesignTokens.Proofs.Palette.Readable

/-!
# A theme extension shows its palettes

A theme extension is a module around a JSON document, and the document has the colours of a token
set by name and key.  Names are arbitrary strings, and may occur twice.  The document is read back
all the same (`theme_shows_palettes`): it has each name once, where it first occurs, with the shades
of the last palette of that name in their order.  A set finds the first palette of a name, so the
two agree on all colours where no name stands twice.
-/

namespace DesignTokens

namespace Palette

/-! ### One palette -/

theorem toString_nat_injective : Function.Injective (toString : ℕ → String) := by
  intro m n h
  exact Nat.repr_inj.mp h

/-- `toHex` of the colour under a key. -/
def hex? (palette : Palette) (key : ℕ) : Option String :=
  (palette.shade? key).map fun shade => shade.color.toHex

/-- An entry of a document that has the keys of the shades in their order, each with its colour in a
palette. -/
def ShownBy (palette : Palette) (entry : Datum) : Prop :=
  ∃ fields, entry = .table fields ∧ fields.map Prod.fst = Shade.keys.map toString ∧
    ∀ key : ℕ, fields.lookup (toString key) = (palette.hex? key).map .text

/-- The colours of a palette, one field for each shade. -/
def colorFields (palette : Palette) : List (String × Datum) :=
  palette.shades.map fun shade => (toString shade.key, .text shade.color.toHex)

theorem lookup_colorFields (palette : Palette) (key : ℕ) :
    palette.colorFields.lookup (toString key) = (palette.hex? key).map .text := by
  have hkey :
      palette.shades.find? (fun shade => toString shade.key == toString key) =
        palette.shade? key := by
    refine List.find?_congr fun shade _ => ?_
    rw [Bool.eq_iff_iff, beq_iff_eq, beq_iff_eq]
    exact toString_nat_injective.eq_iff
  unfold colorFields hex?
  rw [Datum.lookup_map_eq_find?, hkey, Option.map_map]
  rfl

theorem imageFields_colorFields (palette : Palette) :
    Json.imageFields palette.colorFields = palette.colorFields := by
  unfold colorFields
  induction palette.shades with
  | nil => rfl
  | cons shade shades ih => rw [List.map_cons, Json.imageFields, ih, Json.image]

theorem keys_colorFields_generate (hue : Float) (name : String) :
    (generate hue name).colorFields.map Prod.fst = Shade.keys.map toString := by
  have hkeys : (generate hue name).shades.map Shade.key = Shade.keys := keys_ramp _ _
  rw [← hkeys, colorFields, List.map_map, List.map_map]
  rfl

/-- No key of a generated palette stands twice, so that no colour is lost. -/
theorem colorTable_generate (hue : Float) (name : String) :
    (generate hue name).colorTable = .table (generate hue name).colorFields := by
  have hnodup : ((generate hue name).colorFields.map Prod.fst).Nodup := by
    rw [keys_colorFields_generate, List.nodup_map_iff toString_nat_injective]
    decide
  show Datum.table (Datum.collect (generate hue name).colorFields) = _
  rw [Datum.collect_eq_self hnodup]

theorem shownBy_image_colorTable (hue : Float) (name : String) :
    (generate hue name).ShownBy (Json.image (generate hue name).colorTable) := by
  refine ⟨(generate hue name).colorFields, ?_, keys_colorFields_generate hue name,
    lookup_colorFields _⟩
  rw [colorTable_generate, Json.image, imageFields_colorFields]

theorem ShownBy.get? {palette : Palette} {entry : Datum} (h : palette.ShownBy entry) (key : ℕ) :
    entry.get? (toString key) = (palette.hex? key).map .text := by
  obtain ⟨fields, rfl, -, hlookup⟩ := h
  exact hlookup key

end Palette

namespace TokenSet

variable {set : TokenSet}

/-! ### A set of palettes -/

/-- The last palette with a name. -/
def lastPalette? (set : TokenSet) (name : String) : Option Palette :=
  set.palettes.reverse.find? (·.name == name)

theorem lastPalette?_eq_palette? (h : (set.palettes.map Palette.name).Nodup) (name : String) :
    set.lastPalette? name = set.palette? name :=
  Datum.find?_reverse_of_nodup h name

/-- The document of a theme extension with these colours. -/
def themeDocument (colors : List (String × Datum)) : Datum :=
  .table [("theme", .table [("extend", .table [("colors", .table colors)])])]

/-- The palettes of a set by name. -/
def paletteFields (set : TokenSet) : List (String × Datum) :=
  Datum.collect (set.palettes.map fun palette => (palette.name, palette.colorTable))

theorem read?_theme (set : TokenSet) :
    ∃ body, set.toTailwind = "module.exports = " ++ body ++ ";\n" ∧
      Json.read? body = some (themeDocument (Json.imageFields set.paletteFields)) :=
  ⟨_, rfl, Json.read?_pretty _⟩

theorem keys_paletteFields (set : TokenSet) :
    set.paletteFields.map Prod.fst = (set.palettes.map Palette.name).eraseDups := by
  rw [paletteFields, Datum.keys_collect, List.map_map]
  rfl

/-- Under a name stand the colours of its last palette. -/
theorem lookup_paletteFields (set : TokenSet) (name : String) :
    set.paletteFields.lookup name = (set.lastPalette? name).map Palette.colorTable := by
  rw [paletteFields, Datum.lookup_collect, ← List.map_reverse, Datum.lookup_map_eq_find?]
  rfl

theorem IsGenerated.exists_of_lastPalette? (h : set.IsGenerated) {name : String} {palette : Palette}
    (hlast : set.lastPalette? name = some palette) : ∃ hue name, palette = .generate hue name :=
  h palette (List.mem_reverse.mp (List.mem_of_find?_eq_some hlast))

/-- The theme extension of a set of generated palettes, whatever their hues and names, is a module
around a document that has each name once, where the name first occurs, with the shades of its last
palette.  Where no name stands twice, every colour of the document is the one that the set finds
under its name and key. -/
theorem theme_shows_palettes (h : set.IsGenerated) :
    ∃ body colors, set.toTailwind = "module.exports = " ++ body ++ ";\n" ∧
      Json.read? body = some (themeDocument colors) ∧
      colors.map Prod.fst = (set.palettes.map Palette.name).eraseDups ∧
      (colors.map Prod.fst).Nodup ∧
      (∀ name palette, set.lastPalette? name = some palette →
        ∃ entry, colors.lookup name = some entry ∧ palette.ShownBy entry) ∧
      ((set.palettes.map Palette.name).Nodup → ∀ (name : String) (key : ℕ),
        ((colors.lookup name).bind fun entry => entry.get? (toString key)) =
          ((set.palette? name).bind fun palette => palette.hex? key).map .text) := by
  obtain ⟨body, hbody, hread⟩ := read?_theme set
  have hlookup : ∀ name, (Json.imageFields set.paletteFields).lookup name =
      (set.lastPalette? name).map fun palette => Json.image palette.colorTable := by
    intro name
    rw [Json.lookup_imageFields, lookup_paletteFields, Option.map_map]
    rfl
  refine ⟨body, _, hbody, hread, ?_, ?_, ?_, ?_⟩
  · rw [Json.keys_imageFields, keys_paletteFields]
  · rw [Json.keys_imageFields]
    exact Datum.nodup_keys_collect _
  · intro name palette hlast
    obtain ⟨hue, name', rfl⟩ := h.exists_of_lastPalette? hlast
    refine ⟨_, ?_, Palette.shownBy_image_colorTable hue name'⟩
    rw [hlookup, hlast, Option.map_some]
  · intro hnodup name key
    rw [hlookup, ← lastPalette?_eq_palette? hnodup]
    cases hlast : set.lastPalette? name with
    | none => rfl
    | some palette =>
      obtain ⟨hue, name', rfl⟩ := h.exists_of_lastPalette? hlast
      exact (Palette.shownBy_image_colorTable hue name').get? key

/-- Palettes under names with a quote, a backslash and a control character, one of which stands
twice. -/
def echoed : TokenSet where
  baseHue := 0.0
  palettes := [.generate 10.0 "a\"\\", .generate Number.nan "\x00é", .generate 90.0 "a\"\\"]

/-- The name that stands twice comes first, with the colours of the last palette; and in the usual
set the colour of a shade is that of its palette. -/
theorem theme_shows_palettes_echoed :
    echoed.IsGenerated ∧
    (∃ body colors, echoed.toTailwind = "module.exports = " ++ body ++ ";\n" ∧
      Json.read? body = some (themeDocument colors) ∧ colors.map Prod.fst = ["a\"\\", "\x00é"] ∧
      ∃ entry, colors.lookup "a\"\\" = some entry ∧ (Palette.generate 90.0 "a\"\\").ShownBy entry) ∧
    (generate 220.0).IsGenerated ∧ ((generate 220.0).palettes.map Palette.name).Nodup ∧
    ∃ body colors, (generate 220.0).toTailwind = "module.exports = " ++ body ++ ";\n" ∧
      Json.read? body = some (themeDocument colors) ∧
      ((colors.lookup "primary").bind fun entry => entry.get? "500") = some (.text "#255ed0") := by
  have hechoed : echoed.IsGenerated := by
    intro palette hpalette
    simp only [echoed, List.mem_cons, List.not_mem_nil, or_false] at hpalette
    rcases hpalette with rfl | rfl | rfl
    · exact ⟨_, _, rfl⟩
    · exact ⟨_, _, rfl⟩
    · exact ⟨_, _, rfl⟩
  have hnames : ((generate 220.0).palettes.map Palette.name).Nodup := by
    show ["primary", "secondary", "accent", "neutral"].Nodup
    decide
  have hblue :
      (((generate 220.0).palette? "primary").bind fun palette => palette.hex? 500) =
        some "#255ed0" := by
    decide +kernel
  obtain ⟨body, colors, hbody, hread, hkeys, -, hlast, -⟩ := theme_shows_palettes hechoed
  obtain ⟨body', colors', hbody', hread', -, -, -, hcolors⟩ :=
    theme_shows_palettes (isGenerated_generate 220.0)
  refine ⟨hechoed, ⟨body, colors, hbody, hread, ?_, hlast _ _ rfl⟩, isGenerated_generate 220.0,
    hnames, body', colors', hbody', hread', ?_⟩
  · rw [hkeys]
    decide
  · refine (hcolors hnames "primary" 500).trans ?_
    rw [hblue, Option.map_some]

end TokenSet

end DesignTokens

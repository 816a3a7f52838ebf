import DesignTokens.Proofs.Number.Threshold
import DesignTokens.Proofs.Settings.Document

/-!
# Settings over their defaults

A document may give any of the eight keys of settings.  What it gives is said by relations between
values of documents and what they mean (`IsNumber`, `IsRatio`, …) and by what stands under a key of
a section (`Says`), wherever it stands there.  A document that `Gives` values for some keys is read
as the settings with these values and the defaults for the rest
(`partial_document_overlays_defaults`).

The proof has one lemma for a key (`withDefault_of_holds`) and one for a section
(`withDefault_section`): a section that is missing is read as one that is empty.
-/

namespace DesignTokens

open Number

namespace Datum

/-! ### What values mean -/

/-- A float, or an integer that stands for the nearest double. -/
inductive IsNumber : Datum → Float → Prop
  | float (x : Float) : IsNumber (.float x) x
  | integer {n : ℤ} {x : Float} (nearest : RoundsTo n x) (zero : n = 0 → x = 0.0) :
    IsNumber (.integer n) x

/-- A ratio: a number, or a string that is parsed as a preset or as a number. -/
inductive IsRatio : Datum → Ratio → Prop
  | number {datum : Datum} {x : Float} (number : IsNumber datum x) : IsRatio datum (.custom x)
  | text {s : String} {ratio : Ratio} (parses : Ratio.parse s = .ok ratio) : IsRatio (.text s) ratio

/-- An array of 32-bit integers. -/
def IsSteps (datum : Datum) (steps : List ℤ) : Prop :=
  datum = .integers steps ∧ ∀ step ∈ steps, IsInt32 step

/-- The name of a level. -/
def IsLevel (datum : Datum) (level : Level) : Prop :=
  datum = .text level.name

/-- A target, or `null`. -/
inductive IsTarget : Datum → Option Float → Prop
  | given {datum : Datum} {x : Float} (number : IsNumber datum x) : IsTarget datum (some x)
  | unset : IsTarget .null none

theorem roundsTo_floatOfInt (n : ℤ) : RoundsTo n (floatOfInt n) := by
  have hround := ofDyadic_roundsTo (n < 0) n.natAbs 0
  have hvalue : applySign (signOf (n < 0)) ((n.natAbs : ℚ) * 2 ^ (0 : ℤ)) = n := by
    rw [zpow_zero, mul_one, Nat.cast_natAbs, signOf]
    by_cases hn : n < 0
    · rw [decide_eq_true hn, if_pos rfl, applySign, abs_of_neg hn]
      push_cast
      ring
    · rw [decide_eq_false hn, if_neg Bool.false_ne_true, applySign, abs_of_nonneg (not_lt.mp hn)]
  rwa [hvalue] at hround

theorem floatOfInt_zero : floatOfInt 0 = 0.0 := by decide

/-- Every integer stands for a double. -/
theorem isNumber_floatOfInt (n : ℤ) : IsNumber (.integer n) (floatOfInt n) := by
  refine .integer (roundsTo_floatOfInt n) ?_
  rintro rfl
  exact floatOfInt_zero

theorem rounded_intCast_ne_zero {n : ℤ} (hn : n ≠ 0) : rounded n ≠ 0 := by
  have hone : (1 : ℚ) ≤ |(n : ℚ)| := by exact_mod_cast Int.one_le_abs hn
  have hle : 1 ≤ |rounded n| := by
    rw [abs_rounded]
    exact le_rounded onGrid_one hone
  intro hzero
  rw [hzero, abs_zero] at hle
  exact absurd hle (by norm_num)

/-! ### Reading values -/

section Readers

variable {datum : Datum}

theorem IsNumber.toFloat? {x : Float} (h : IsNumber datum x) : datum.toFloat? = some x := by
  cases h with
  | float x => rfl
  | @integer n x nearest zero =>
    show some (floatOfInt n) = some x
    -- `0` and `-0` have the same value, which rounding does not tell apart
    by_cases hn : n = 0
    · rw [zero hn, hn, floatOfInt_zero]
    · rw [(roundsTo_floatOfInt n).unique nearest (rounded_intCast_ne_zero hn)]

theorem IsRatio.ofDatum? {ratio : Ratio} (h : IsRatio datum ratio) :
    Ratio.ofDatum? datum = some ratio := by
  cases h with
  | @number datum x hnumber =>
    have hread : Ratio.ofDatum? datum = datum.toFloat?.map .custom := by
      cases hnumber <;> rfl
    rw [hread, hnumber.toFloat?]
    rfl
  | text parses =>
    rw [Ratio.ofDatum?, parses]
    rfl

theorem IsSteps.toList? {steps : List ℤ} (h : IsSteps datum steps) :
    datum.toList? toInt32? = some steps := by
  rw [h.1]
  exact toList?_integers h.2

theorem IsLevel.ofDatum? {level : Level} (h : IsLevel datum level) (dialect : Dialect) :
    Level.ofDatum? dialect datum = some level := by
  rw [h]
  exact Level.ofDatum?_toDatum dialect level

theorem IsTarget.toOption? {target : Option Float} (h : IsTarget datum target) :
    datum.toOption? Datum.toFloat? = some target := by
  cases h with
  | unset => rfl
  | @given datum x hnumber =>
    have hread : datum.toOption? Datum.toFloat? = datum.toFloat?.map some := by
      cases hnumber <;> rfl
    rw [hread, hnumber.toFloat?]
    rfl

end Readers

/-! ### What documents say -/

/-- A document that has a value under a key of a section. -/
def Says (document : Datum) (heading key : String) (value : Datum) : Prop :=
  ∃ sections fields,
    document = .table sections ∧ (heading, .table fields) ∈ sections ∧ (key, value) ∈ fields

/-- What is given is said by a value that means it; where nothing is given, nothing is said. -/
def Holds {α : Type} (Means : Datum → α → Prop) (Said : Datum → Prop) : Option α → Prop
  | none => ∀ value, ¬Said value
  | some a => ∃ value, Said value ∧ Means value a

/-- A key is read as what is given for it, or as its default. -/
theorem withDefault_of_holds {α : Type} {Means : Datum → α → Prop} {read : Datum → Option α}
    {key : String} {fields : List (String × Datum)} {given : Option α}
    (h : Holds Means (fun value => (key, value) ∈ fields) given)
    (hread : ∀ {value a}, Means value a → read value = some a)
    (honce : (fields.map Prod.fst).count key ≤ 1) (default : α) :
    withDefault default read key fields = some (given.getD default) := by
  unfold withDefault
  cases given with
  | none =>
    have habsent : key ∉ fields.map Prod.fst := by
      intro hmem
      obtain ⟨⟨key, value⟩, hfield, rfl⟩ := List.mem_map.mp hmem
      exact h value hfield
    rw [lookup_of_fresh habsent]
    rfl
  | some a =>
    obtain ⟨value, hmem, hmeans⟩ := h
    rw [lookup_of_mem honce hmem]
    exact hread hmeans

theorem Holds.congr {α : Type} {Means : Datum → α → Prop} {Said Said' : Datum → Prop}
    {given : Option α} (h : Holds Means Said given) (hsaid : ∀ value, Said' value ↔ Said value) :
    Holds Means Said' given := by
  cases given with
  | none => exact fun value hvalue => h value ((hsaid value).mp hvalue)
  | some a =>
    obtain ⟨value, hvalue, hmeans⟩ := h
    exact ⟨value, (hsaid value).mpr hvalue, hmeans⟩

/-! ### Sections -/

/-- A section that is a table, unless it is missing, and that stands only once, as its keys do in
it. -/
structure IsSection (heading : String) (keys : List String)
    (sections : List (String × Datum)) : Prop where
  once : (sections.map Prod.fst).count heading ≤ 1
  table : ∀ value, (heading, value) ∈ sections →
    ∃ fields, value = .table fields ∧ ∀ key ∈ keys, (fields.map Prod.fst).count key ≤ 1

/-- The fields of the section with this heading; a section that is missing has none. -/
def sectionFields (heading : String) (sections : List (String × Datum)) : List (String × Datum) :=
  match sections.lookup heading with
  | some (.table fields) => fields
  | _ => []

namespace IsSection

variable {heading : String} {keys : List String} {sections : List (String × Datum)}

/-- A section is missing, or it is looked up under its heading. -/
theorem lookup_cases (h : IsSection heading keys sections) :
    (heading ∉ sections.map Prod.fst ∧ sections.lookup heading = none) ∨
      ∃ fields, (heading, .table fields) ∈ sections ∧
        sections.lookup heading = some (.table fields) ∧
        ∀ key ∈ keys, (fields.map Prod.fst).count key ≤ 1 := by
  by_cases hmem : heading ∈ sections.map Prod.fst
  · obtain ⟨⟨heading, value⟩, hsection, rfl⟩ := List.mem_map.mp hmem
    obtain ⟨fields, rfl, hkeys⟩ := h.table value hsection
    exact Or.inr ⟨fields, hsection, lookup_of_mem h.once hsection, hkeys⟩
  · exact Or.inl ⟨hmem, lookup_of_fresh hmem⟩

theorem says_iff (h : IsSection heading keys sections) (key : String) (value : Datum) :
    Says (.table sections) heading key value ↔ (key, value) ∈ sectionFields heading sections := by
  unfold sectionFields
  rcases h.lookup_cases with ⟨hmissing, hlookup⟩ | ⟨fields, hsection, hlookup, -⟩
  · rw [hlookup]
    constructor
    · rintro ⟨_, fields, hsections, hsection, -⟩
      obtain rfl := Datum.table.inj hsections
      exact absurd (List.mem_map_of_mem hsection) hmissing
    · exact fun hmem => absurd hmem List.not_mem_nil
  · rw [hlookup]
    constructor
    · rintro ⟨_, fields', hsections, hsection', hmem⟩
      obtain rfl := Datum.table.inj hsections
      -- the section stands once, so that both tables are the one that is looked up
      have hsame := (lookup_of_mem h.once hsection').symm.trans hlookup
      obtain rfl : fields' = fields := by simpa using hsame
      exact hmem
    · exact fun hmem => ⟨sections, fields, rfl, hsection, hmem⟩

theorem count_sectionFields (h : IsSection heading keys sections) {key : String}
    (hkey : key ∈ keys) : ((sectionFields heading sections).map Prod.fst).count key ≤ 1 := by
  unfold sectionFields
  rcases h.lookup_cases with ⟨-, hlookup⟩ | ⟨fields, -, hlookup, hkeys⟩
  · rw [hlookup]
    exact Nat.zero_le 1
  · rw [hlookup]
    exact hkeys key hkey

/-- A key of a section is read as what the document says there, or as its default. -/
theorem withDefault_key {α : Type} {Means : Datum → α → Prop} {read : Datum → Option α}
    {key : String} {a : Option α} (h : IsSection heading keys sections)
    (hholds : Holds Means (Says (.table sections) heading key) a)
    (hread : ∀ {value a}, Means value a → read value = some a) (hkey : key ∈ keys) (default : α) :
    withDefault default read key (sectionFields heading sections) = some (a.getD default) := by
  have hfields : Holds Means (fun value => (key, value) ∈ sectionFields heading sections) a :=
    hholds.congr fun value => (h.says_iff key value).symm
  exact withDefault_of_holds hfields hread (h.count_sectionFields hkey) default

/-- A section that is missing is read as one that is empty. -/
theorem withDefault_section {α : Type} {default a : α} {read : Datum → Option α}
    (h : IsSection heading keys sections)
    (hread : read (.table (sectionFields heading sections)) = some a)
    (hempty : read (.table []) = some default) :
    withDefault default read heading sections = some a := by
  unfold sectionFields at hread
  unfold withDefault
  rcases h.lookup_cases with ⟨-, hlookup⟩ | ⟨fields, -, hlookup, -⟩
  · rw [hlookup] at hread ⊢
    exact hempty.symm.trans hread
  · rw [hlookup] at hread ⊢
    exact hread

end IsSection

end Datum

open Datum

namespace Settings

/-! ### Documents that give values -/

/-- The sections of settings with their keys. -/
def knownKeys : List (String × List String) :=
  [ ("palette", ["base_hue"]),
    ("typography", ["base_size", "ratio", "min_viewport", "max_viewport", "steps"]),
    ("contrast", ["level", "target_ratio"]) ]

/-- A key of settings. -/
def IsKnown (heading key : String) : Prop :=
  ∃ known ∈ knownKeys, known.1 = heading ∧ key ∈ known.2

instance decidableIsKnown (heading key : String) : Decidable (IsKnown heading key) :=
  inferInstanceAs (Decidable (∃ known ∈ knownKeys, known.1 = heading ∧ key ∈ known.2))

/-- A document with tables for sections.  Sections and keys that are known stand in it at most once;
others may stand anywhere. -/
def IsSectioned (document : Datum) : Prop :=
  ∃ sections, document = .table sections ∧ ∀ known ∈ knownKeys, IsSection known.1 known.2 sections

/-- Values for some of the keys. -/
structure Given where
  baseHue : Option Float := none
  baseSize : Option Float := none
  ratio : Option Ratio := none
  minViewport : Option Float := none
  maxViewport : Option Float := none
  steps : Option (List ℤ) := none
  level : Option Level := none
  targetRatio : Option (Option Float) := none

/-- Settings with the values that are given in place of their own. -/
def Given.over (given : Given) (settings : Settings) : Settings where
  baseHue := given.baseHue.getD settings.baseHue
  typography :=
    { baseSize := given.baseSize.getD settings.typography.baseSize
      ratio := given.ratio.getD settings.typography.ratio
      minViewport := given.minViewport.getD settings.typography.minViewport
      maxViewport := given.maxViewport.getD settings.typography.maxViewport
      steps := given.steps.getD settings.typography.steps }
  level := given.level.getD settings.level
  targetRatio := given.targetRatio.getD settings.targetRatio

/-- A document that gives these values, and no others, under the keys that are known. -/
structure Gives (document : Datum) (given : Given) : Prop where
  sectioned : IsSectioned document
  baseHue : Holds IsNumber (document.Says "palette" "base_hue") given.baseHue
  baseSize : Holds IsNumber (document.Says "typography" "base_size") given.baseSize
  ratio : Holds IsRatio (document.Says "typography" "ratio") given.ratio
  minViewport : Holds IsNumber (document.Says "typography" "min_viewport") given.minViewport
  maxViewport : Holds IsNumber (document.Says "typography" "max_viewport") given.maxViewport
  steps : Holds IsSteps (document.Says "typography" "steps") given.steps
  level : Holds IsLevel (document.Says "contrast" "level") given.level
  targetRatio : Holds IsTarget (document.Says "contrast" "target_ratio") given.targetRatio

/-- What is given is decided by what the document says under the keys that are known. -/
theorem Gives.congr {document other : Datum} {given : Given} (h : Gives document given)
    (hother : IsSectioned other) (hagree : ∀ heading key, IsKnown heading key →
      ∀ value, other.Says heading key value ↔ document.Says heading key value) :
      Gives other given where
  sectioned := hother
  baseHue := h.baseHue.congr (hagree _ _ (by decide))
  baseSize := h.baseSize.congr (hagree _ _ (by decide))
  ratio := h.ratio.congr (hagree _ _ (by decide))
  minViewport := h.minViewport.congr (hagree _ _ (by decide))
  maxViewport := h.maxViewport.congr (hagree _ _ (by decide))
  steps := h.steps.congr (hagree _ _ (by decide))
  level := h.level.congr (hagree _ _ (by decide))
  targetRatio := h.targetRatio.congr (hagree _ _ (by decide))

/-! ### Reading over defaults -/

section Reading

variable {sections : List (String × Datum)} {given : Given}

theorem hueOfDatum?_of_gives (h : Gives (.table sections) given)
    (hsection : IsSection "palette" ["base_hue"] sections) (dialect : Dialect) :
    hueOfDatum? dialect (.table (sectionFields "palette" sections)) =
      some (given.over {}).baseHue := by
  have hhue := hsection.withDefault_key h.baseHue IsNumber.toFloat? (by simp)
  unfold hueOfDatum?
  rw [toFields?_of_count fun _ => hsection.count_sectionFields]
  simp only [Option.bind_eq_bind, Option.bind_some, hhue, Given.over]

theorem typographyOfDatum?_of_gives (h : Gives (.table sections) given)
    (hsection :
      IsSection "typography"
        ["base_size", "ratio", "min_viewport", "max_viewport", "steps"] sections)
    (dialect : Dialect) :
    ScaleOptions.ofDatum? dialect (.table (sectionFields "typography" sections)) =
      some (given.over {}).typography := by
  have hbase := hsection.withDefault_key h.baseSize IsNumber.toFloat? (by simp)
  have hratio := hsection.withDefault_key h.ratio IsRatio.ofDatum? (by simp)
  have hmin := hsection.withDefault_key h.minViewport IsNumber.toFloat? (by simp)
  have hmax := hsection.withDefault_key h.maxViewport IsNumber.toFloat? (by simp)
  have hsteps := hsection.withDefault_key h.steps IsSteps.toList? (by simp)
  unfold ScaleOptions.ofDatum?
  rw [toFields?_of_count fun _ => hsection.count_sectionFields]
  simp only [Option.bind_eq_bind, Option.bind_some, hbase, hratio, hmin, hmax, hsteps,
    Option.pure_def, Given.over]

theorem contrastOfDatum?_of_gives (h : Gives (.table sections) given)
    (hsection : IsSection "contrast" ["level", "target_ratio"] sections) (dialect : Dialect) :
    contrastOfDatum? dialect (.table (sectionFields "contrast" sections)) =
      some ((given.over {}).level, (given.over {}).targetRatio) := by
  have hlevel := hsection.withDefault_key h.level (fun hvalue => hvalue.ofDatum? dialect) (by simp)
  have htarget := hsection.withDefault_key h.targetRatio IsTarget.toOption? (by simp)
  unfold contrastOfDatum?
  rw [toFields?_of_count fun _ => hsection.count_sectionFields]
  simp only [Option.bind_eq_bind, Option.bind_some, hlevel, htarget, Option.pure_def, Given.over]

end Reading

/-- A document is read as the values that it gives over the defaults. -/
theorem ofDatum?_of_gives {document : Datum} {given : Given} (h : Gives document given)
    (dialect : Dialect) : ofDatum? dialect document = some (given.over {}) := by
  obtain ⟨sections, rfl, hsections⟩ := h.sectioned
  simp only [knownKeys, List.forall_mem_cons] at hsections
  obtain ⟨hpalette, htypography, hcontrast, -⟩ := hsections
  have hnames :
      ∀ name ∈ ["palette", "typography", "contrast"], (sections.map Prod.fst).count name ≤ 1 := by
    simp only [List.forall_mem_cons]
    exact ⟨hpalette.once, htypography.once, hcontrast.once, by simp⟩
  have hhue : withDefault ({} : Settings).baseHue (hueOfDatum? dialect) "palette" sections =
      some (given.over {}).baseHue :=
    hpalette.withDefault_section (hueOfDatum?_of_gives h hpalette dialect) rfl
  have hscale :
      withDefault ({} : Settings).typography (ScaleOptions.ofDatum? dialect) "typography" sections =
      some (given.over {}).typography :=
    htypography.withDefault_section (typographyOfDatum?_of_gives h htypography dialect) rfl
  have hlevel :
      withDefault (({} : Settings).level, ({} : Settings).targetRatio)
        (contrastOfDatum? dialect) "contrast"
      sections = some ((given.over {}).level, (given.over {}).targetRatio) :=
    hcontrast.withDefault_section (contrastOfDatum?_of_gives h hcontrast dialect) rfl
  unfold ofDatum?
  rw [toFields?_of_count hnames]
  simp only [Option.bind_eq_bind, Option.bind_some, hhue, hscale, hlevel, Option.pure_def]

/-! ### Partial documents -/

/-- A document that gives values for any of the keys of settings is read as the settings with these
values, and with the defaults for all other keys, in either format and from the text of a file.
Documents that say the same under the keys of settings are read alike: the order of sections and
keys does not matter, nor does what stands under other keys. -/
theorem partial_document_overlays_defaults {document : Datum} {given : Given}
    (h : Gives document given) :
    (∀ dialect, ofDatum? dialect document = some (given.over {})) ∧
    (∀ text, Toml.read? text = some document → ofToml? text = some (given.over {})) ∧
    ∀ other, IsSectioned other →
      (∀ heading key, IsKnown heading key →
        ∀ value, other.Says heading key value ↔ document.Says heading key value) →
      ∀ dialect, ofDatum? dialect other = ofDatum? dialect document := by
  refine ⟨ofDatum?_of_gives h, ?_, ?_⟩
  · intro text hread
    rw [ofToml?, hread, Option.bind_some]
    exact ofDatum?_of_gives h .toml
  · intro other hother hagree dialect
    rw [ofDatum?_of_gives h, ofDatum?_of_gives (h.congr hother hagree)]

/-- A document with some of the keys, out of order and among others. -/
def sparseDocument : Datum :=
  .table
    [ ("theme", .text "dark"),
      ("contrast", .table [("note", .bool true), ("target_ratio", .integer 7)]),
      ("typography",
        .table
          [ ("steps", .integers [0, 3]),
            ("family", .text "serif"),
            ("ratio", .text " 1.5 "),
            ("base_size", .float 18.0) ]) ]

/-- The values in it. -/
def sparseGiven : Given where
  baseSize := some 18.0
  ratio := some (.custom 1.5)
  steps := some [0, 3]
  targetRatio := some (some 7.0)

/-- A sparse document is read over the defaults. -/
theorem partial_document_overlays_defaults_sparse :
    Gives sparseDocument sparseGiven ∧ ofDatum? .toml sparseDocument =
      some
        { typography := { baseSize := 18.0, ratio := .custom 1.5, steps := [0, 3] }
          targetRatio := some 7.0 } := by
  have hsectioned : IsSectioned sparseDocument := by
    refine ⟨_, rfl, ?_⟩
    simp only [knownKeys, List.forall_mem_cons]
    refine ⟨⟨by decide, ?_⟩, ⟨by decide, ?_⟩, ⟨by decide, ?_⟩, by simp⟩
    · simp
    · simp
    · simp
  have hgives : Gives sparseDocument sparseGiven := by
    refine ⟨hsectioned, ?_, ?_, ?_, ?_, ?_, ?_, ?_, ?_⟩
    · simp [Holds, sparseGiven, sparseDocument, Says]
    · refine ⟨.float 18.0, ?_, .float _⟩
      simp [sparseDocument, Says]
    · refine ⟨.text " 1.5 ", ?_, .text (by decide)⟩
      simp [sparseDocument, Says]
    · simp [Holds, sparseGiven, sparseDocument, Says]
    · simp [Holds, sparseGiven, sparseDocument, Says]
    · refine ⟨.integers [0, 3], ?_, rfl, by decide⟩
      simp [sparseDocument, Says]
    · simp [Holds, sparseGiven, sparseDocument, Says]
    · refine ⟨.integer 7, ?_, .given (isNumber_floatOfInt 7)⟩
      simp [sparseDocument, Says]
  exact ⟨hgives, (partial_document_overlays_defaults hgives).1 .toml⟩

end Settings

end DesignTokens

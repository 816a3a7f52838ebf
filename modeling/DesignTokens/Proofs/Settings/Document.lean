import DesignTokens.Proofs.Toml.Document
import DesignTokens.Settings.Basic

/-!
# Settings as TOML

`ofDatum?` is a left inverse of `toDatum` (`ofDatum?_toDatum`) and `ofToml?` of `toToml`
(`ofToml?_toToml`), for every double, NaN included, and every preset, if the steps of the type scale
are 32-bit integers.  Steps that were read always are (`stepsFit_of_ofToml?`).
-/

namespace DesignTokens

/-! ### Steps in 32 bits -/

/-- `-2 ^ 31 ≤ n < 2 ^ 31`. -/
def IsInt32 (n : ℤ) : Prop :=
  -0x80000000 ≤ n ∧ n ≤ 0x7fffffff

instance (n : ℤ) : Decidable (IsInt32 n) :=
  inferInstanceAs (Decidable (_ ∧ _))

/-- All steps are 32-bit integers. -/
def Settings.StepsFit (settings : Settings) : Prop :=
  ∀ step ∈ settings.typography.steps, IsInt32 step

instance (settings : Settings) : Decidable settings.StepsFit :=
  inferInstanceAs (Decidable (∀ step ∈ settings.typography.steps, IsInt32 step))

namespace Datum

theorem toInt32?_eq_some_iff {datum : Datum} {n : ℤ} :
    datum.toInt32? = some n ↔ datum = .integer n ∧ IsInt32 n := by
  cases datum with
  | integer m =>
    simp only [toInt32?, toInt?, IsInt32, integer.injEq, Option.ite_none_right_eq_some,
      Option.some.injEq]
    constructor
    · rintro ⟨hm, rfl⟩
      exact ⟨rfl, hm⟩
    · rintro ⟨rfl, hm⟩
      exact ⟨hm, rfl⟩
  | _ => simp [toInt32?, toInt?]

theorem toList?_integers {steps : List ℤ} (h : ∀ step ∈ steps, IsInt32 step) :
    toList? toInt32? (.integers steps) = some steps := by
  rw [integers, toList?]
  induction steps with
  | nil => rfl
  | cons step steps ih =>
    have hstep := toInt32?_eq_some_iff.mpr ⟨rfl, h step (List.mem_cons_self ..)⟩
    have hrest := ih fun step hmem => h step (List.mem_cons_of_mem _ hmem)
    rw [List.map_cons, List.mapM_cons, hstep, hrest]
    rfl

theorem isInt32_of_toList? {datum : Datum} {steps : List ℤ}
    (h : toList? toInt32? datum = some steps) : ∀ step ∈ steps, IsInt32 step := by
  cases datum with
  | list items =>
    rw [toList?] at h
    induction items generalizing steps with
    | nil => simp_all
    | cons item items ih =>
      simp only [List.mapM_cons, Option.bind_eq_bind, Option.bind_eq_some_iff, Option.pure_def,
        Option.some.injEq] at h
      obtain ⟨step, hstep, rest, hrest, rfl⟩ := h
      exact List.forall_mem_cons.mpr ⟨(toInt32?_eq_some_iff.mp hstep).2, ih hrest⟩
  | _ => simp [toList?] at h

/-! ### Records -/

/-- A table can be read as a record if no field of the record occurs twice in it. -/
theorem toFields?_of_count {fields : List (String × Datum)} {names : List String}
    (h : ∀ name ∈ names, (fields.map Prod.fst).count name ≤ 1) (dialect : Dialect) :
    (Datum.table fields).toFields? dialect names = some fields := by
  have honce : (names.all fun name => (fields.filter (·.1 == name)).length ≤ 1) = true := by
    rw [List.all_eq_true]
    intro name hname
    have hcount := h name hname
    rw [List.count, List.countP_map, List.countP_eq_length_filter] at hcount
    exact decide_eq_true hcount
  rw [toFields?, if_pos honce]

/-- A table without duplicate keys can be read as any record. -/
theorem toFields?_table {fields : List (String × Datum)} (hnodup : (fields.map Prod.fst).Nodup)
    (dialect : Dialect) (names : List String) :
    (Datum.table fields).toFields? dialect names = some fields :=
  toFields?_of_count (fun name _ => List.nodup_iff_count_le_one.mp hnodup name) dialect

/-- What holds of the default and of all that can be read holds of the value of a field. -/
theorem withDefault_induction {α : Type} {P : α → Prop} {default a : α} {read : Datum → Option α}
    {name : String} {fields : List (String × Datum)}
    (h : withDefault default read name fields = some a) (hdefault : P default)
    (hread : ∀ datum a, read datum = some a → P a) : P a := by
  unfold withDefault at h
  split at h
  case h_1 => exact Option.some.inj h ▸ hdefault
  case h_2 datum _ => exact hread datum a h

end Datum

open Datum

theorem Preset.ofName?_name (preset : Preset) : Preset.ofName? preset.name = some preset := by
  cases preset <;> rfl

/-- `ofDatum?` is a left inverse of `toDatum`: a preset is not confused with a number. -/
theorem Ratio.ofDatum?_toDatum (ratio : Ratio) : Ratio.ofDatum? ratio.toDatum = some ratio := by
  cases ratio with
  | preset preset =>
    rw [Ratio.toDatum, Ratio.ofDatum?, Ratio.parse, Preset.ofName?_name]
    rfl
  | custom x => rfl

theorem Level.ofDatum?_toDatum (dialect : Dialect) (level : Level) :
    Level.ofDatum? dialect level.toDatum = some level := by
  cases level <;> rfl

namespace ScaleOptions

theorem nodup_toFields (options : ScaleOptions) : (options.toFields.map Prod.fst).Nodup := by
  simp [toFields]

theorem ofDatum?_toDatum (dialect : Dialect) {options : ScaleOptions}
    (h : ∀ step ∈ options.steps, IsInt32 step) :
    ofDatum? dialect options.toDatum = some options := by
  unfold ofDatum?
  rw [toDatum, toFields?_table options.nodup_toFields]
  simp [toFields, withDefault, List.lookup_cons, toFloat?, Ratio.ofDatum?_toDatum,
    toList?_integers h]

theorem isInt32_of_ofDatum? {dialect : Dialect} {datum : Datum} {options : ScaleOptions}
    (h : ofDatum? dialect datum = some options) : ∀ step ∈ options.steps, IsInt32 step := by
  simp only [ofDatum?, Option.bind_eq_bind, Option.bind_eq_some_iff, Option.pure_def,
    Option.some.injEq] at h
  obtain ⟨fields, -, _, -, _, -, _, -, _, -, steps, hsteps, rfl⟩ := h
  exact withDefault_induction hsteps (by decide) fun _ _ => isInt32_of_toList?

end ScaleOptions

namespace Settings

theorem hueOfDatum?_table (dialect : Dialect) (hue : Float) :
    hueOfDatum? dialect (.table [("base_hue", .float hue)]) = some hue := by
  unfold hueOfDatum?
  rw [toFields?_table (by simp)]
  rfl

theorem contrastOfDatum?_table (dialect : Dialect) (level : Level) (target : Option Float) :
    contrastOfDatum? dialect (.table (("level", level.toDatum) ::
      target.toList.map fun target => ("target_ratio", .float target))) = some (level, target) := by
  unfold contrastOfDatum?
  rw [toFields?_table (by cases target <;> simp)]
  cases target <;> simp [withDefault, List.lookup_cons, toFloat?, toOption?, Level.ofDatum?_toDatum]

theorem ofDatum?_toDatum (dialect : Dialect) {settings : Settings} (h : settings.StepsFit) :
    ofDatum? dialect settings.toDatum = some settings := by
  unfold ofDatum?
  rw [toDatum, toFields?_table (by simp [sections])]
  have htypography := ScaleOptions.ofDatum?_toDatum dialect h
  rw [ScaleOptions.toDatum] at htypography
  simp [sections, withDefault, List.lookup_cons, hueOfDatum?_table,
    contrastOfDatum?_table, htypography]

/-! ### TOML -/

theorem fits_of_isInt32 {n : ℤ} (h : IsInt32 n) : Toml.fits 64 n = true := by
  obtain ⟨hlow, hhigh⟩ := h
  simp only [Toml.fits, Bool.and_eq_true, decide_eq_true_eq]
  norm_num
  omega

theorem writable_integers {steps : List ℤ} (h : ∀ step ∈ steps, IsInt32 step) :
    Toml.Writable Toml.maxNesting (.integers steps) := by
  intro item hitem
  obtain ⟨step, hstep, rfl⟩ := List.mem_map.mp hitem
  exact fits_of_isInt32 (h step hstep)

theorem writable_ratio (ratio : Ratio) : Toml.Writable Toml.maxNesting ratio.toDatum := by
  cases ratio <;> exact trivial

theorem writableFields_typography {options : ScaleOptions}
    (h : ∀ step ∈ options.steps, IsInt32 step) : Toml.WritableFields options.toFields where
  bare := by
    simp only [ScaleOptions.toFields, List.forall_mem_cons]
    decide
  writable := by
    simp only [ScaleOptions.toFields, List.forall_mem_cons]
    exact ⟨trivial, writable_ratio options.ratio, trivial, trivial, writable_integers h, by simp⟩
  nodup := options.nodup_toFields

theorem writableFields_contrast (level : Level) (target : Option Float) :
    Toml.WritableFields (("level", level.toDatum) ::
      target.toList.map fun target => ("target_ratio", .float target)) where
  bare := by
    simp only [List.forall_mem_cons, List.forall_mem_map]
    exact ⟨by decide, fun _ _ => by decide⟩
  writable := by
    simp only [List.forall_mem_cons, List.forall_mem_map]
    exact ⟨trivial, fun _ _ => trivial⟩
  nodup := by cases target <;> simp

theorem writableSections {settings : Settings} (h : settings.StepsFit) :
    Toml.WritableSections settings.sections where
  bare := by
    simp only [sections, List.forall_mem_cons]
    decide
  writable := by
    simp only [sections, List.forall_mem_cons]
    refine ⟨⟨?_, ?_, ?_⟩, writableFields_typography h, writableFields_contrast .., by simp⟩
    · simp only [List.forall_mem_cons]
      decide
    · simp only [List.forall_mem_cons]
      exact ⟨trivial, by simp⟩
    · simp
  nodup := by simp [sections]

/-- `ofToml?` is a left inverse of `toToml`. -/
theorem ofToml?_toToml {settings : Settings} (h : settings.StepsFit) :
    ofToml? settings.toToml = some settings := by
  rw [ofToml?, toToml, Toml.read?_write (writableSections h), Option.bind_some, ← toDatum]
  exact ofDatum?_toDatum .toml h

/-- The steps of settings that were read are 32-bit integers. -/
theorem stepsFit_of_ofToml? {document : String} {settings : Settings}
    (h : ofToml? document = some settings) : settings.StepsFit := by
  obtain ⟨datum, -, hdatum⟩ := Option.bind_eq_some_iff.mp h
  simp only [ofDatum?, Option.bind_eq_bind, Option.bind_eq_some_iff, Option.pure_def,
    Option.some.injEq] at hdatum
  obtain ⟨fields, -, _, -, options, hoptions, _, -, rfl⟩ := hdatum
  exact withDefault_induction (P := fun options => ∀ step ∈ options.steps, IsInt32 step)
    hoptions (by decide)
    fun _ _ => ScaleOptions.isInt32_of_ofDatum?

end Settings

end DesignTokens

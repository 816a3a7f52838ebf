import DesignTokens.Proofs.Command.Contrast
import DesignTokens.Proofs.Json.RoundTrip
import DesignTokens.Proofs.Number.Places
import DesignTokens.Proofs.Text.Lines

/-!
# How a contrast check ends

The level and the target of a check come from the request, from the settings or from the level
itself; its colours are parsed from two strings, written, and parsed again; and the exit code, the
report and the suggestions are decided one after the other.  All of it follows from three things:
the target, the two colours, and whether their contrast ratio is enough for the level
(`contrast_outcome_is_decided`).

A request `Names` two colours if it can be checked.  Then its run is known (`run_of_names`), and
otherwise nothing is printed (`run_of_not_names`).
-/

namespace DesignTokens

open Number

namespace Report

theorem lines_cons_ne_empty (line : String) (rest : List String) :
    Text.unlines (line :: rest) ≠ "" := by
  intro h
  -- the first line may be empty, but not its line break
  have hchars := congrArg String.toList (h.symm.trans (Text.unlines_cons line rest))
  simp at hchars

theorem json_ne_empty (datum : Datum) : json datum ≠ "" := by
  intro h
  have hchars := congrArg String.toList h
  simp [json] at hchars

/-- A printed report is read back as `Json.image` of its `Datum`. -/
theorem read?_json (datum : Datum) : Json.read? (json datum) = some (Json.image datum) :=
  Json.read?_pretty_append datum "\n" (by simp [Json.isSpace])

theorem contrastText_ne_empty (check : ContrastCheck) : contrastText check ≠ "" :=
  lines_cons_ne_empty _ _

end Report

namespace ContrastRequest

variable {request : ContrastRequest} {settings : Settings} {foreground background : Rgb}

/-! ### Requests that can be checked -/

/-- A request with a target in `[1, 21]` and with two strings that name colours. -/
structure Names (request : ContrastRequest) (settings : Settings)
    (foreground background : Rgb) : Prop where
  target : 1.0 ≤ request.targetIn settings ∧ request.targetIn settings ≤ 21.0
  foreground : Rgb.Spells request.foreground foreground
  background : Rgb.Spells request.background background

/-- The target is given, or else in the settings, or else the required ratio of the level. -/
theorem targetIn_eq (request : ContrastRequest) (settings : Settings) :
    request.targetIn settings =
      (request.target.or settings.targetRatio).getD
        ((request.levelIn settings).requiredRatio request.large) := by
  unfold targetIn Settings.targetFor
  cases request.target <;> rfl

theorem isReachable_iff {target : Float} :
    Settings.isReachable target = true ↔ 1.0 ≤ target ∧ target ≤ 21.0 := by
  simp [Settings.isReachable]

theorem not_names_iff :
    (¬∃ foreground background, request.Names settings foreground background) ↔
      ¬(1.0 ≤ request.targetIn settings ∧ request.targetIn settings ≤ 21.0) ∨
        (∀ color, ¬Rgb.Spells request.foreground color) ∨
        ∀ color, ¬Rgb.Spells request.background color := by
  constructor
  · intro h
    by_contra hall
    simp only [not_or, not_not, not_forall] at hall
    obtain ⟨htarget, ⟨foreground, hforeground⟩, background, hbackground⟩ := hall
    exact h ⟨foreground, background, htarget, hforeground, hbackground⟩
  · rintro hfault ⟨foreground, background, h⟩
    rcases hfault with htarget | hforeground | hbackground
    · exact htarget h.target
    · exact hforeground _ h.foreground
    · exact hbackground _ h.background

theorem check_of_names (h : request.Names settings foreground background) :
    request.check settings =
      .ok (.perform foreground background (request.levelIn settings) request.large
        (request.targetIn settings)) :=
  check_eq_ok_iff.mpr
    ⟨isReachable_iff.mpr h.target, foreground, background, Rgb.spells_iff.mp h.foreground,
    Rgb.spells_iff.mp h.background, rfl⟩

theorem names_of_check {check : ContrastCheck} (h : request.check settings = .ok check) :
    ∃ foreground background, request.Names settings foreground background := by
  obtain ⟨hreachable, foreground, background, hforeground, hbackground, -⟩ := check_eq_ok_iff.mp h
  exact ⟨foreground, background, isReachable_iff.mp hreachable, Rgb.spells_iff.mpr hforeground,
    Rgb.spells_iff.mpr hbackground⟩

/-- What can be wrong with a request: its target, or one of its colours. -/
theorem failure_of_check {failure : Failure} (h : request.check settings = .error failure) :
    failure = .targetRatio (request.targetIn settings) ∨ ∃ fault, failure = .fault fault := by
  have hnone : ¬∃ check, request.check settings = .ok check := by
    rintro ⟨check, hcheck⟩
    cases hcheck.symm.trans h
  unfold ContrastRequest.check at h
  dsimp only at h
  split at h
  case isTrue => exact Or.inl (Except.error.inj h).symm
  case isFalse hreachable =>
    rw [Bool.not_eq_true', Bool.not_eq_false] at hreachable
    right
    cases hforeground : Rgb.ofHex (Text.trim request.foreground) with
    | error fault =>
      rw [hforeground] at h
      exact ⟨fault, (Except.error.inj h).symm⟩
    | ok foreground =>
      cases hbackground : Rgb.ofHex (Text.trim request.background) with
      | error fault =>
        rw [hforeground, hbackground] at h
        exact ⟨fault, (Except.error.inj h).symm⟩
      | ok background =>
        -- with two colours nothing is left to fail
        exact absurd ⟨_, check_eq_ok_iff.mpr ⟨hreachable, _, _, hforeground, hbackground, rfl⟩⟩
          hnone

/-! ### Runs -/

theorem run_of_names (h : request.Names settings foreground background) :
    request.run settings =
      let check := ContrastCheck.perform foreground background
        (request.levelIn settings) request.large
        (request.targetIn settings)
      { output := if request.json then Report.json (Report.contrastView check)
        else Report.contrastText check
        failure := if check.selected.passes then none
          else some (.contrastTooLow (request.levelIn settings)) } := by
  rw [run, check_of_names h]
  rfl

/-- A request that cannot be checked prints nothing. -/
theorem run_of_not_names (h : ¬∃ foreground background,
    request.Names settings foreground background) :
    ∃ failure, request.run settings = .failed failure ∧ failure.kind = .validation ∧
      ∀ level, failure ≠ .noVerdict level := by
  cases hcheck : request.check settings with
  | ok check => exact absurd (names_of_check hcheck) h
  | error failure =>
    refine ⟨failure, by rw [run, hcheck], ?_⟩
    rcases failure_of_check hcheck with rfl | ⟨fault, rfl⟩
    · exact ⟨rfl, nofun⟩
    · exact ⟨rfl, nofun⟩

theorem output_run_eq_empty_iff :
    (request.run settings).output = "" ↔
      ¬∃ foreground background, request.Names settings foreground background := by
  constructor
  · rintro hempty ⟨foreground, background, h⟩
    rw [run_of_names h] at hempty
    dsimp only at hempty
    split_ifs at hempty
    · exact Report.json_ne_empty _ hempty
    · exact Report.contrastText_ne_empty _ hempty
  · intro h
    obtain ⟨failure, hrun, -⟩ := run_of_not_names h
    rw [hrun]
    rfl

/-- A run succeeds exactly if the contrast is enough for the level. -/
theorem exitCode_run_of_names (h : request.Names settings foreground background) :
    (request.run settings).exitCode =
      if (request.levelIn settings).requiredRatio request.large ≤
        Contrast.ratio foreground background then 0
      else 1 := by
  have hpasses :
      (ContrastCheck.perform foreground background (request.levelIn settings) request.large
        (request.targetIn settings)).selected.passes = true ↔ _ := Verdict.passes_evaluate_iff
  rw [run_of_names h]
  dsimp only [Outcome.exitCode]
  simp only [hpasses]
  split_ifs <;> rfl

theorem exitCode_run_of_not_names (h : ¬∃ foreground background,
    request.Names settings foreground background) : (request.run settings).exitCode = 1 := by
  obtain ⟨failure, hrun, hkind, -⟩ := run_of_not_names h
  rw [hrun]
  show failure.kind.exitCode = 1
  rw [hkind]
  rfl

theorem exitCode_run_eq_zero_iff :
    (request.run settings).exitCode = 0 ↔
      (1.0 ≤ request.targetIn settings ∧ request.targetIn settings ≤ 21.0) ∧
      ∃ foreground background,
        Rgb.Spells request.foreground foreground ∧ Rgb.Spells request.background background ∧
        (request.levelIn settings).requiredRatio request.large ≤
          Contrast.ratio foreground background := by
  constructor
  · intro hzero
    by_cases h : ∃ foreground background, request.Names settings foreground background
    · obtain ⟨foreground, background, h⟩ := h
      rw [exitCode_run_of_names h] at hzero
      have hpasses :
          (request.levelIn settings).requiredRatio request.large ≤
            Contrast.ratio foreground background := by
        by_contra hfails
        rw [if_neg hfails] at hzero
        cases hzero
      exact ⟨h.target, foreground, background, h.foreground, h.background, hpasses⟩
    · rw [exitCode_run_of_not_names h] at hzero
      cases hzero
  · rintro ⟨htarget, foreground, background, hforeground, hbackground, hpasses⟩
    rw [exitCode_run_of_names ⟨htarget, hforeground, hbackground⟩, if_pos hpasses]

theorem exitCode_run_eq_zero_or_one :
    (request.run settings).exitCode = 0 ∨ (request.run settings).exitCode = 1 := by
  by_cases h : ∃ foreground background, request.Names settings foreground background
  · obtain ⟨foreground, background, h⟩ := h
    rw [exitCode_run_of_names h]
    split_ifs
    · exact Or.inl rfl
    · exact Or.inr rfl
  · exact Or.inr (exitCode_run_of_not_names h)

/-- The search for the verdict of a level does not fail. -/
theorem failure_run_ne_noVerdict (level : Level) :
    (request.run settings).failure ≠ some (.noVerdict level) := by
  by_cases h : ∃ foreground background, request.Names settings foreground background
  · obtain ⟨foreground, background, h⟩ := h
    rw [run_of_names h]
    dsimp only
    split_ifs <;> simp
  · obtain ⟨failure, hrun, -, hne⟩ := run_of_not_names h
    rw [hrun]
    exact fun hsome => hne level (Option.some.inj hsome)

/-- A run depends on the strings only through the colours that they name. -/
theorem run_respelled {foreground' background' : String}
    (hforeground : ∀ color, Rgb.Spells foreground' color ↔ Rgb.Spells request.foreground color)
    (hbackground : ∀ color, Rgb.Spells background' color ↔ Rgb.Spells request.background color) :
    let respelled :=
      run { request with foreground := foreground', background := background' } settings
    respelled.output = (request.run settings).output ∧
      respelled.exitCode = (request.run settings).exitCode := by
  have hnames : ∀ foreground background,
      Names { request with foreground := foreground', background := background' } settings
        foreground background ↔
        request.Names settings foreground background := by
    intro foreground background
    constructor
    · exact fun h => ⟨h.target, (hforeground _).mp h.foreground, (hbackground _).mp h.background⟩
    · exact fun h => ⟨h.target, (hforeground _).mpr h.foreground, (hbackground _).mpr h.background⟩
  intro respelled
  by_cases h : ∃ foreground background, request.Names settings foreground background
  · obtain ⟨foreground, background, h⟩ := h
    have hrun : respelled = request.run settings :=
      (run_of_names ((hnames ..).mpr h)).trans (run_of_names h).symm
    rw [hrun]
    exact ⟨rfl, rfl⟩
  · -- a request that cannot be checked prints nothing
    have h' := h
    simp only [← hnames] at h'
    exact ⟨(output_run_eq_empty_iff.mpr h').trans (output_run_eq_empty_iff.mpr h).symm,
      (exitCode_run_of_not_names h').trans (exitCode_run_of_not_names h).symm⟩

end ContrastRequest

/-! ### The report -/

/-- The JSON of a suggestion. -/
def Suggestion.ShownBy (document : Datum) (suggestion : Suggestion) : Prop :=
  document.get? "color" = some (.text suggestion.color.toHex) ∧
    document.get? "ratio" = some (.float (roundTo suggestion.ratio 2)) ∧
    document.get? "direction" = some (.text suggestion.direction.name)

theorem Contrast.isFinite_roundTo_ratio (a b : Rgb) : (roundTo (ratio a b) 2).isFinite = true := by
  have hbounded := (ratio_spec a b).1
  have hratio : value (ratio a b) ≤ 128 := hbounded.le
  have hle : value (ratio a b) * 100 ≤ 29 * 2 ^ (1019 : ℤ) := by
    calc value (ratio a b) * 100 ≤ 128 * 100 := by linarith
      _ ≤ 29 * 2 ^ (14 : ℤ) := by norm_num
      _ ≤ 29 * 2 ^ (1019 : ℤ) :=
        mul_le_mul_of_nonneg_left (zpow_le_zpow_right₀ (by norm_num) (by norm_num)) (by norm_num)
  rw [isFinite_roundTo_two_iff hbounded.finite,
    abs_of_nonneg (mul_nonneg hbounded.nonneg (by norm_num))]
  exact hle.trans_lt lt_overflow

namespace Report

/-- Only a check that fails shows its target. -/
theorem get?_target (check : ContrastCheck) :
    (contrastView check).get? "target_ratio" =
      if check.selected.passes then none else some (.float check.target) := by
  unfold contrastView
  split_ifs <;> rfl

theorem get?_suggestions (check : ContrastCheck) :
    (Json.image (contrastView check)).get? "suggestions" =
      some (.list (check.suggestions.map fun suggestion =>
        Json.image (suggestionView suggestion))) := by
  have hview :
      (contrastView check).get? "suggestions" =
        some (.list (check.suggestions.map suggestionView)) := by
    unfold contrastView
    split_ifs <;> rfl
  rw [Json.get?_image, hview, Option.map_some, Json.image, Json.imageItems_eq_map, List.map_map]
  rfl

/-- A suggestion is read back with its ratio rounded. -/
theorem shownBy_image {foreground background : Rgb} {target : Float} {suggestion : Suggestion}
    (h : suggestion ∈ Suggestion.suggest foreground background target) :
    Suggestion.ShownBy (Json.image (suggestionView suggestion)) suggestion := by
  have hfinite : (roundTo suggestion.ratio 2).isFinite = true := by
    rw [(Suggestion.reaches_of_mem_suggest h).1]
    exact Contrast.isFinite_roundTo_ratio ..
  have hratio :
      Json.image (.float (roundTo suggestion.ratio 2)) = .float (roundTo suggestion.ratio 2) := by
    rw [Json.image, if_pos hfinite]
  refine ⟨?_, ?_, ?_⟩
  · rw [Json.get?_image]
    rfl
  · rw [Json.get?_image, ← hratio]
    rfl
  · rw [Json.get?_image]
    rfl

end Report

namespace ContrastRequest

variable {request : ContrastRequest} {settings : Settings} {foreground background : Rgb}

/-- The JSON of a check has its target and suggestions if the check fails, and neither if it
passes. -/
theorem output_run_of_names (h : request.Names settings foreground background)
    (hjson : request.json = true) :
    ∃ document items, Json.read? (request.run settings).output = some document ∧
      document.get? "suggestions" = some (.list items) ∧
      ((request.levelIn settings).requiredRatio request.large ≤
        Contrast.ratio foreground background →
        document.get? "target_ratio" = none ∧ items = []) ∧
      (¬(request.levelIn settings).requiredRatio request.large ≤
        Contrast.ratio foreground background →
        document.get? "target_ratio" = some (.float (request.targetIn settings)) ∧
        List.Forall₂ Suggestion.ShownBy items
          (Suggestion.suggest foreground background (request.targetIn settings))) := by
  -- JSON has no infinity, but a target in `[1, 21]` is finite
  have hfinite : (request.targetIn settings).isFinite = true :=
    isFinite_of_le_of_le (by decide) (by decide) h.target.1 h.target.2
  rw [run_of_names h]
  dsimp only
  rw [if_pos hjson]
  refine ⟨_, _, Report.read?_json _, Report.get?_suggestions _, ?_, ?_⟩
  · intro hpasses
    rw [← Verdict.passes_evaluate_iff] at hpasses
    rw [Json.get?_image, Report.get?_target, ContrastCheck.perform, if_pos hpasses, if_pos hpasses]
    exact ⟨rfl, rfl⟩
  · intro hfails
    rw [← Verdict.passes_evaluate_iff] at hfails
    rw [Json.get?_image, Report.get?_target, ContrastCheck.perform, if_neg hfails, if_neg hfails]
    constructor
    · rw [Option.map_some, Json.image, if_pos hfinite]
    · rw [List.forall₂_map_left_iff, List.forall₂_same]
      exact fun suggestion hmem => Report.shownBy_image hmem

/-! ### The command -/

/-- The command prints and ends as the run of its request on the settings in use. -/
theorem outcome_spec (request : ContrastRequest) (files : Files) (directory : Place) :
    let outcome := (Command.run (.contrast request) files directory).1
    let direct := request.run (.inUse files directory)
    outcome.output = direct.output ∧ outcome.failure = direct.failure ∧
      outcome.exitCode = direct.exitCode := by
  obtain ⟨houtput, hfailure⟩ := withSettings_spec files directory request.run
  exact ⟨houtput, hfailure, exitCode_withSettings files directory request.run⟩

/-- A contrast check ends as its target, its colours and their contrast say, whatever the request
leaves to the settings.  It succeeds exactly if the target is in `[1, 21]`, both strings name a
colour and their contrast ratio is at least what the level requires, and ends with exit code 1
otherwise.  It prints nothing exactly if the target or a colour is invalid.  Its JSON has a target
and suggestions if the ratio is too low, and neither if it is not.  Other spellings of the same
colours change nothing, and there is a verdict for every level. -/
theorem contrast_outcome_is_decided (request : ContrastRequest) (files : Files)
    (directory : Place) :
    let settings := Settings.inUse files directory
    let level := request.level.getD settings.level
    let target := (request.target.or settings.targetRatio).getD (level.requiredRatio request.large)
    let outcome := (Command.run (.contrast request) files directory).1
    (outcome.exitCode = 0 ↔ (1.0 ≤ target ∧ target ≤ 21.0) ∧ ∃ foreground background,
      Rgb.Spells request.foreground foreground ∧ Rgb.Spells request.background background ∧
      level.requiredRatio request.large ≤ Contrast.ratio foreground background) ∧
    (outcome.exitCode = 0 ∨ outcome.exitCode = 1) ∧
    (outcome.output = "" ↔
      ¬(1.0 ≤ target ∧ target ≤ 21.0) ∨ (∀ color, ¬Rgb.Spells request.foreground color) ∨
      ∀ color, ¬Rgb.Spells request.background color) ∧
    (∀ foreground background, 1.0 ≤ target ∧ target ≤ 21.0 →
      Rgb.Spells request.foreground foreground →
      Rgb.Spells request.background background → request.json = true →
      ∃ document items, Json.read? outcome.output = some document ∧
        document.get? "suggestions" = some (.list items) ∧
        (level.requiredRatio request.large ≤ Contrast.ratio foreground background →
          document.get? "target_ratio" = none ∧ items = []) ∧
        (¬level.requiredRatio request.large ≤ Contrast.ratio foreground background →
          document.get? "target_ratio" = some (.float target) ∧
          List.Forall₂ Suggestion.ShownBy items
            (Suggestion.suggest foreground background target))) ∧
    (∀ foreground' background',
      (∀ color, Rgb.Spells foreground' color ↔ Rgb.Spells request.foreground color) →
      (∀ color, Rgb.Spells background' color ↔ Rgb.Spells request.background color) →
      let outcome' := (Command.run
        (.contrast { request with foreground := foreground', background := background' })
        files directory).1
      outcome'.output = outcome.output ∧ outcome'.exitCode = outcome.exitCode) ∧
    ∀ level, outcome.failure ≠ some (.noVerdict level) := by
  intro settings level target outcome
  have htarget : request.targetIn settings = target := request.targetIn_eq settings
  obtain ⟨houtput, hfailure, hexit⟩ := outcome_spec request files directory
  rw [houtput, hfailure, hexit, ← htarget]
  refine ⟨exitCode_run_eq_zero_iff, exitCode_run_eq_zero_or_one,
    output_run_eq_empty_iff.trans not_names_iff, ?_, ?_, failure_run_ne_noVerdict⟩
  · intro foreground background hrange hforeground hbackground
    exact output_run_of_names ⟨hrange, hforeground, hbackground⟩
  · intro foreground' background' hforeground hbackground outcome'
    obtain ⟨houtput', -, hexit'⟩ :=
      outcome_spec { request with foreground := foreground', background := background' }
        files directory
    rw [houtput', hexit']
    exact run_respelled hforeground hbackground

/-- `#88AAFF` on white, in capitals and with blanks around the colours. -/
def shoutedRequest : ContrastRequest where
  foreground := "\t #ABCDEF"
  background := "FFFFFF "
  level := some .aaa
  json := true

/-- A pale blue fails with its target and suggestions, however its colours are spelled. -/
theorem contrast_outcome_is_decided_shouted :
    let outcome := (Command.run (.contrast shoutedRequest) .empty ⟨"", []⟩).1
    outcome.exitCode = 1 ∧ outcome.output ≠ "" ∧
    (∃ document items, Json.read? outcome.output = some document ∧
      document.get? "target_ratio" = some (.float 7.0) ∧
      document.get? "suggestions" = some (.list items) ∧
      List.Forall₂ Suggestion.ShownBy items (Suggestion.suggest ⟨0xab, 0xcd, 0xef⟩ .white 7.0)) ∧
    (Command.run (.contrast { shoutedRequest with foreground := "abcdef", background := "#ffffff" })
      .empty ⟨"", []⟩).1.output = outcome.output := by
  have hsettings : Settings.inUse .empty ⟨"", []⟩ = {} := by
    rw [Settings.inUse, Store.load_of_absent rfl]
    rfl
  have hforeground : Rgb.Spells shoutedRequest.foreground ⟨0xab, 0xcd, 0xef⟩ := by decide
  have hbackground : Rgb.Spells shoutedRequest.background .white := by decide
  have hrequired :
      (shoutedRequest.level.getD ({} : Settings).level).requiredRatio shoutedRequest.large = 7.0 :=
    rfl
  have htarget : (shoutedRequest.target.or ({} : Settings).targetRatio).getD 7.0 = 7.0 := rfl
  have hfails : ¬7.0 ≤ Contrast.ratio ⟨0xab, 0xcd, 0xef⟩ .white := by decide +kernel
  have hrange : (1.0 : Float) ≤ 7.0 ∧ (7.0 : Float) ≤ 21.0 := by decide
  obtain ⟨hzero, hone, hempty, hdocument, hrespelled, -⟩ :=
    contrast_outcome_is_decided shoutedRequest .empty ⟨"", []⟩
  simp only [hsettings, hrequired, htarget] at hzero hempty hdocument
  refine ⟨hone.resolve_left ?_, ?_, ?_, (hrespelled _ _ ?_ ?_).1⟩
  · intro hcode
    obtain ⟨-, foreground, background, h, h', hpasses⟩ := hzero.mp hcode
    obtain rfl := hforeground.unique h
    obtain rfl := hbackground.unique h'
    exact hfails hpasses
  · intro hnothing
    rcases hempty.mp hnothing with hout | hnone | hnone
    · exact hout hrange
    · exact hnone _ hforeground
    · exact hnone _ hbackground
  · obtain ⟨document, items, hread, hitems, -, hfailing⟩ :=
      hdocument _ _ hrange hforeground hbackground rfl
    obtain ⟨hshown, hsuggested⟩ := hfailing hfails
    exact ⟨document, items, hread, hshown, hitems, hsuggested⟩
  · have hspelling : Rgb.spelling "abcdef" = Rgb.spelling shoutedRequest.foreground := by decide
    intro color
    rw [Rgb.Spells, Rgb.Spells, hspelling]
  · have hspelling : Rgb.spelling "#ffffff" = Rgb.spelling shoutedRequest.background := by decide
    intro color
    rw [Rgb.Spells, Rgb.Spells, hspelling]

end ContrastRequest

end DesignTokens

import DesignTokens.Command.Run
import DesignTokens.Proofs.Settings.Store
import DesignTokens.Proofs.TypeScale.Generate

/-!
# Type scales from settings

The check of settings looks at the sizes of the steps, and the generation also at the line between
the sizes of each.  Settings can thus be saved and loaded whose scale is refused
(`narrow_settings_are_refused`).  What is missing is that the two terms of each line are finite,
which they are on every spacious range of widths, and nothing else: the command for a type scale
succeeds on all other files, whatever they hold (`scale_of_settings`).
-/

namespace DesignTokens

open Number

/-- Options whose steps all have a line between their sizes that can be written. -/
def ScaleOptions.HasLines (options : ScaleOptions) : Prop :=
  ∀ index ∈ options.steps, (Step.compute options index).clamp.preferredRem.isFinite = true ∧
    (Step.compute options index).clamp.preferredVw.isFinite = true

theorem Settings.isValid_of_check {settings : Settings} (h : settings.check = .ok ()) :
    settings.typography.IsValid := by
  rw [← ScaleOptions.check_eq_ok_iff]
  cases htypography : settings.typography.check with
  | error fault =>
    rw [check, htypography] at h
    cases h
  | ok => rfl

theorem ScaleChanges.apply_nothing (options : ScaleOptions) : apply {} options = options := rfl

namespace TypeScale

variable {options : ScaleOptions}

/-! ### Generation from valid options -/

theorem unfit?_eq_none_iff_hasLines (h : options.IsValid) :
    unfit? options options.steps = none ↔ options.HasLines := by
  rw [unfit?_eq_none_iff, ScaleOptions.HasLines]
  exact forall₂_congr fun index hindex => Step.isFinite_clamp_iff (h.sizes index hindex)

theorem hasLines_of_isSpacious (h : options.IsValid) (hspacious : options.IsSpacious) :
    options.HasLines := by
  intro index hindex
  have hsize := h.sizes index hindex
  exact (Step.isFinite_clamp_iff hsize).mp
    (Step.isFinite_clamp_of_isSpacious hsize h.viewport hspacious)

/-- Valid options give a scale, or a fault that names the first step without a line. -/
theorem generate_of_isValid (h : options.IsValid) :
    (options.HasLines ∧ ∃ scale, generate options = .ok scale) ∨
    (¬options.HasLines ∧ ∃ index, unfit? options options.steps = some index ∧
      generate options =
        .error (.noFiniteClamp index options.minViewport options.maxViewport)) := by
  rw [← unfit?_eq_none_iff_hasLines h]
  have hcheck := ScaleOptions.check_eq_ok_iff.mpr h
  rcases generate_cases options with
    ⟨fault, hrefused, -⟩ | ⟨-, index, hunfit, hgenerate⟩ | ⟨-, hunfit, hgenerate⟩
  · rw [hcheck] at hrefused
    cases hrefused
  · exact .inr ⟨by simp [hunfit], index, hunfit, hgenerate⟩
  · exact .inl ⟨hunfit, _, hgenerate⟩

/-! ### The command -/

variable {files : Files} {directory : Place} {format : Format} {settings : Settings}

theorem run_of_generate {scale : TypeScale} (h : generate settings.typography = .ok scale) :
    run {} format settings = { output := scale.render format } := by
  unfold run
  rw [ScaleChanges.apply_nothing, h]

theorem run_of_refused {fault : Fault} (h : generate settings.typography = .error fault) :
    run {} format settings = .failed (.fault fault) := by
  unfold run
  rw [ScaleChanges.apply_nothing, h]

/-- All that the command can do where nothing is given: the defaults stand in for settings that
cannot be loaded, and settings that were loaded give their scale or are refused for the first step
without a line. -/
theorem run_command_cases (files : Files) (directory : Place) (format : Format) :
    (∃ cause scale, Store.load files directory = .error cause ∧
      generate ({} : Settings).typography = .ok scale ∧
      Command.run (.typeScale {} format) files directory =
        ({ output := scale.render format, ignored := some cause }, files)) ∨
    (∃ settings scale, Store.load files directory = .ok settings ∧ settings.typography.HasLines ∧
      generate settings.typography = .ok scale ∧
      Command.run (.typeScale {} format) files directory =
        ({ output := scale.render format }, files)) ∨
    (∃ settings index, Store.load files directory = .ok settings ∧ ¬settings.typography.HasLines ∧
      unfit? settings.typography settings.typography.steps = some index ∧
      Command.run (.typeScale {} format) files directory =
        (.failed (.fault
          (.noFiniteClamp index settings.typography.minViewport settings.typography.maxViewport)),
          files)) := by
  simp only [Command.run, withSettings]
  cases hload : Store.load files directory with
  | error cause =>
    obtain ⟨scale, hscale⟩ : ∃ scale, generate ({} : Settings).typography = .ok scale :=
      exists_generate_default
    refine .inl ⟨cause, scale, rfl, hscale, ?_⟩
    dsimp only
    rw [run_of_generate hscale]
  | ok settings =>
    refine .inr ?_
    -- loading has checked the settings, so that nothing but a line can be missing
    have hvalid := Settings.isValid_of_check (Store.check_of_load hload)
    rcases generate_of_isValid hvalid with
      ⟨hlines, scale, hscale⟩ | ⟨hlines, index, hunfit, hrefused⟩
    · refine .inl ⟨settings, scale, rfl, hlines, hscale, ?_⟩
      dsimp only
      rw [run_of_generate hscale]
    · refine .inr ⟨settings, index, rfl, hlines, hunfit, ?_⟩
      dsimp only
      rw [run_of_refused hrefused]

/-- Settings that can be used describe a scale exactly if each of its steps has a line, as it has on
a spacious range.  Whatever the files hold, the command with nothing given leaves them as they are.
It succeeds unless the settings are loaded and have a step without a line, and its failure then
names the first such step; settings that cannot be loaded are ignored for the defaults. -/
theorem scale_of_settings (hcheck : settings.check = .ok ()) {outcome : Outcome} {left : Files}
    (hrun : Command.run (.typeScale {} format) files directory = (outcome, left)) :
    ((∃ scale, generate settings.typography = .ok scale) ↔ settings.typography.HasLines) ∧
    (settings.typography.IsSpacious → settings.typography.HasLines) ∧
    left = files ∧
    (outcome.failure = none ↔
      ∀ loaded, Store.load files directory = .ok loaded → loaded.typography.HasLines) ∧
    (∀ failure, outcome.failure = some failure →
      ∃ loaded index, Store.load files directory = .ok loaded ∧
      unfit? loaded.typography loaded.typography.steps = some index ∧
      failure = .fault
        (.noFiniteClamp index loaded.typography.minViewport loaded.typography.maxViewport)) ∧
    (outcome.failure = none → ∃ scale, outcome.output = scale.render format ∧
      ((∃ loaded, Store.load files directory = .ok loaded ∧ outcome.ignored = none ∧
        generate loaded.typography = .ok scale) ∨
      ∃ cause, Store.load files directory = .error cause ∧ outcome.ignored = some cause ∧
        generate ({} : Settings).typography = .ok scale)) := by
  have hvalid := Settings.isValid_of_check hcheck
  refine ⟨?_, hasLines_of_isSpacious hvalid, ?_⟩
  · rcases generate_of_isValid hvalid with ⟨hlines, hscale⟩ | ⟨hlines, index, -, hrefused⟩
    · exact iff_of_true hscale hlines
    · exact iff_of_false (by simp [hrefused]) hlines
  · -- the settings of the hypothesis need not be those of the files
    rcases run_command_cases files directory format with
      ⟨cause, scale, hload, hscale, hcase⟩ | ⟨loaded, scale, hload, hlines, hscale, hcase⟩ |
        ⟨loaded, index, hload, hlines, hunfit, hcase⟩
    all_goals
      rw [hcase, Prod.mk.injEq] at hrun
      obtain ⟨rfl, rfl⟩ := hrun
      rw [hload]
    · refine ⟨rfl, by simp, nofun, ?_⟩
      intro _
      exact ⟨scale, rfl, .inr ⟨cause, rfl, rfl, hscale⟩⟩
    · refine ⟨rfl, by simpa using hlines, nofun, ?_⟩
      intro _
      exact ⟨scale, rfl, .inl ⟨loaded, rfl, rfl, hscale⟩⟩
    · refine ⟨rfl, by simpa [Outcome.failed] using hlines, ?_, nofun⟩
      intro failure hfailure
      exact ⟨loaded, index, rfl, hunfit, (Option.some.inj hfailure).symm⟩

/-- Sizes near `2 ^ 1024`, on a viewport range that is only just spacious. -/
def towering : Settings where
  typography :=
    { baseSize := 1.7e308
      minViewport := 100.0
      maxViewport := 125.0
      steps := [-2, 0] }

/-- Sizes near `2 ^ 1024` give a scale. -/
theorem scale_of_settings_towering :
    towering.check = .ok () ∧ towering.typography.IsSpacious ∧ ∃ outcome left,
      Command.run (.typeScale {} .css) (Store.kept .empty ⟨"", []⟩ towering) ⟨"", []⟩ =
        (outcome, left) ∧
      (∃ scale, generate towering.typography = .ok scale) ∧ outcome.failure = none := by
  have hcheck : towering.check = .ok () := by decide +kernel
  have hload := Store.load_kept .empty ⟨"", []⟩ (by decide : towering.StepsFit) hcheck
  have hspacious : towering.typography.IsSpacious := by
    obtain ⟨-, hstart⟩ : Bounded 100 100.0 ∧ value 100.0 = 100 := value_literal 100 (by decide)
    obtain ⟨-, hspan⟩ : Bounded 25 25.0 ∧ value 25.0 = 25 := value_literal 25 (by decide)
    have hsub : (125.0 : Float) - 100.0 = 25.0 := by decide
    constructor
    all_goals
      simp only [towering, hsub, hstart, hspan]
      norm_num
  rcases hrun : Command.run (.typeScale {} .css) (Store.kept .empty ⟨"", []⟩ towering)
    ⟨"", []⟩ with ⟨outcome, left⟩
  obtain ⟨hgenerate, hlines, -, hsucceeds, -⟩ := scale_of_settings hcheck hrun
  refine ⟨hcheck, hspacious, outcome, left, rfl, hgenerate.mpr (hlines hspacious), hsucceeds.mpr ?_⟩
  intro loaded hloaded
  rw [hload] at hloaded
  obtain rfl := Except.ok.inj hloaded
  exact hlines hspacious

/-- Settings on a narrow range of widths. -/
def narrowSettings : Settings where
  typography := narrow

/-- Settings on a narrow range can be used and saved, and are loaded, but the command refuses
them. -/
theorem narrow_settings_are_refused :
    ∃ saved, Store.save .empty ⟨"", []⟩ narrowSettings = (.ok (), saved) ∧
      narrowSettings.check = .ok () ∧ Store.load saved ⟨"", []⟩ = .ok narrowSettings ∧
      (¬∃ scale, generate narrowSettings.typography = .ok scale) ∧
      ∀ format, (Command.run (.typeScale {} format) saved ⟨"", []⟩).1.exitCode = 1 := by
  have hcheck : narrowSettings.check = .ok () := by decide +kernel
  have hload := Store.load_kept .empty ⟨"", []⟩ (by decide : narrowSettings.StepsFit) hcheck
  have haccepts : Store.Accepts .empty ⟨"", []⟩ := ⟨by rfl, nofun, nofun, rfl, rfl⟩
  have hlines : ¬narrowSettings.typography.HasLines := by
    unfold ScaleOptions.HasLines
    decide +kernel
  refine ⟨_, Store.save_eq_ok_iff.mpr ⟨hcheck, haccepts, rfl⟩, hcheck, hload, ?_, ?_⟩
  · rcases generate_of_isValid (Settings.isValid_of_check hcheck) with
      ⟨hhas, -⟩ | ⟨-, index, -, hrefused⟩
    · exact absurd hhas hlines
    · simp [hrefused]
  · intro format
    rcases run_command_cases (Store.kept .empty ⟨"", []⟩ narrowSettings) ⟨"", []⟩ format with
      ⟨_, _, hother, -, -⟩ | ⟨_, _, hother, hhas, -, -⟩ | ⟨_, _, -, -, -, hrun⟩
    · rw [hload] at hother
      cases hother
    · rw [hload] at hother
      obtain rfl := Except.ok.inj hother
      exact absurd hhas hlines
    · rw [hrun]
      rfl

end TypeScale

end DesignTokens

import DesignTokens.Command.Run
import DesignTokens.Proofs.Color.Hex
import DesignTokens.Proofs.Contrast.Ratio
import DesignTokens.Proofs.Contrast.Suggestion
import DesignTokens.Proofs.Settings.Store

/-!
# Contrast checks as commands

A check that fails comes with suggestions.  Each of them, given as the foreground of the same check,
passes with the contrast that was reported for it (`suggestion_passes_when_followed`): the search
and the verdict compare the same ratio, and `ofHex` is a left inverse of `toHex`.
-/

namespace DesignTokens

open Number

/-! ### The settings in use -/

/-- The settings that a command runs with: the defaults stand in for what cannot be loaded. -/
def Settings.inUse (files : Files) (directory : Place) : Settings :=
  (Store.load files directory).toOption.getD {}

/-- A command prints and ends as its run on the settings in use. -/
theorem withSettings_spec (files : Files) (directory : Place) (run : Settings → Outcome) :
    (withSettings files directory run).output = (run (Settings.inUse files directory)).output ∧
      (withSettings files directory run).failure =
        (run (Settings.inUse files directory)).failure := by
  unfold withSettings Settings.inUse
  cases Store.load files directory with
  | error cause => exact ⟨rfl, rfl⟩
  | ok settings => exact ⟨rfl, rfl⟩

theorem exitCode_withSettings (files : Files) (directory : Place) (run : Settings → Outcome) :
    (withSettings files directory run).exitCode =
      (run (Settings.inUse files directory)).exitCode := by
  unfold Outcome.exitCode
  rw [(withSettings_spec files directory run).2]

/-! ### Colours as hexadecimal strings -/

/-- Every level has its verdict. -/
theorem Verdict.find?_evaluateAll (foreground background : Rgb) (level : Level) (large : Bool) :
    (evaluateAll foreground background large).find? (·.level == level) =
      some (evaluate foreground background level large) := by
  cases level <;> rfl

/-- `ofTexts` on `toHex` of two colours does not fail. -/
theorem ContrastCheck.ofTexts_eq (foreground background : Rgb) (level : Level) (large : Bool)
    (target : Float) :
    ofTexts foreground background level large target =
      .ok (perform foreground background level large target) := by
  have hverdicts : Verdict.allOfTexts foreground.toHex background.toHex large =
      .ok (Verdict.evaluateAll foreground background large) := by
    rw [Verdict.allOfTexts, Rgb.ofHex_toHex, Rgb.ofHex_toHex]
    rfl
  have hsuggestions : Suggestion.ofTexts foreground.toHex background.toHex target =
      .ok (Suggestion.suggest foreground background target) := by
    rw [Suggestion.ofTexts, Rgb.ofHex_toHex, Rgb.ofHex_toHex]
    rfl
  rw [ofTexts, hverdicts, hsuggestions]
  simp only [Except.mapError, bind, Except.bind, Verdict.find?_evaluateAll, perform]
  split_ifs <;> rfl

namespace ContrastRequest

variable {request : ContrastRequest} {settings : Settings} {check : ContrastCheck}

/-! ### Requests -/

/-- The level that a request is checked against. -/
def levelIn (request : ContrastRequest) (settings : Settings) : Level :=
  request.level.getD settings.level

/-- The contrast that the suggestions for a request aim for. -/
def targetIn (request : ContrastRequest) (settings : Settings) : Float :=
  request.target.getD (settings.targetFor (request.levelIn settings) request.large)

/-- A check is made exactly if its target is in `[1, 21]` and both strings are colours. -/
theorem check_eq_ok_iff :
    request.check settings = .ok check ↔
      Settings.isReachable (request.targetIn settings) = true ∧ ∃ foreground background,
        Rgb.ofHex (Text.trim request.foreground) = .ok foreground ∧
        Rgb.ofHex (Text.trim request.background) = .ok background ∧
        check = .perform foreground background (request.levelIn settings) request.large
          (request.targetIn settings) := by
  unfold ContrastRequest.check targetIn levelIn
  dsimp only
  split
  case isTrue hrefused =>
    rw [Bool.not_eq_true'] at hrefused
    simp [hrefused, bind, Except.bind, throw, throwThe, MonadExceptOf.throw]
  case isFalse hreachable =>
    rw [Bool.not_eq_true', Bool.not_eq_false] at hreachable
    -- the foreground is read first, and its fault hides that of the background
    cases Rgb.ofHex (Text.trim request.foreground) with
    | error fault => simp [hreachable, bind, Except.bind, Except.mapError]
    | ok foreground =>
      cases Rgb.ofHex (Text.trim request.background) with
      | error fault => simp [hreachable, bind, Except.bind, Except.mapError]
      | ok background =>
        simp [hreachable, bind, Except.bind, Except.mapError, ContrastCheck.ofTexts_eq, eq_comm]

theorem exitCode_run (h : request.check settings = .ok check)
    (hpasses : check.selected.passes = true) : (request.run settings).exitCode = 0 := by
  unfold run
  rw [h]
  simp only [hpasses, if_true, Outcome.exitCode]

/-- A request that is checked with a foreground is checked the same way with any other colour in its
place. -/
theorem check_with_foreground {foreground background : Rgb} {level : Level} {large : Bool}
    {target : Float}
    (h : request.check settings = .ok (.perform foreground background level large target))
    (color : Rgb) :
    ContrastRequest.check { request with foreground := color.toHex } settings =
      .ok (.perform color background level large target) := by
  obtain ⟨hreachable, foreground', background', -, hbackground, hperform⟩ := check_eq_ok_iff.mp h
  -- a check shows all that it was made with
  obtain rfl : background = background' := congrArg ContrastCheck.background hperform
  obtain rfl : level = request.levelIn settings := congrArg (·.selected.level) hperform
  obtain rfl : large = request.large := congrArg ContrastCheck.large hperform
  obtain rfl : target = request.targetIn settings := congrArg ContrastCheck.target hperform
  refine check_eq_ok_iff.mpr ⟨hreachable, color, background, ?_, hbackground, rfl⟩
  rw [Rgb.trim_toHex, Rgb.ofHex_toHex]

end ContrastRequest

namespace Suggestion

variable {foreground background : Rgb} {level : Level} {large : Bool} {target : Float}

/-! ### Following a suggestion -/

/-- A suggestion for a target of at least `level.requiredRatio large` meets the level. -/
theorem passes_of_mem_suggest (htarget : level.requiredRatio large ≤ target) {s : Suggestion}
    (hs : s ∈ suggest foreground background target) :
    (Verdict.evaluate s.color background level large).passes = true := by
  obtain ⟨hratio, hreach⟩ := reaches_of_mem_suggest hs
  rw [Verdict.passes_evaluate_iff, ← hratio]
  exact le_of_le_of_le htarget hreach

/-- A suggestion for a pair of colours that fails, with a target of at least
`level.requiredRatio large`, is not the foreground.  Its `toHex` passes in place of the foreground,
with the contrast ratio that it was suggested with, and the command that made the failing check
succeeds with it. -/
theorem suggestion_passes_when_followed
    (hfails : (Verdict.evaluate foreground background level large).passes = false)
    (htarget : level.requiredRatio large ≤ target) :
    ∀ s ∈ suggest foreground background target,
      s.color ≠ foreground ∧
      (∀ text, Rgb.ofHex text = .ok background → ∃ verdict,
        Verdict.ofTexts s.color.toHex text level large = .ok verdict ∧
        verdict.passes = true ∧ verdict.ratio = s.ratio) ∧
      ∀ (request : ContrastRequest) (files : Files) (directory : Place),
        request.check (.inUse files directory) =
          .ok (.perform foreground background level large target) →
        (Command.run (.contrast { request with foreground := s.color.toHex }) files
          directory).1.exitCode = 0 := by
  intro s hs
  have hpasses := passes_of_mem_suggest htarget hs
  refine ⟨?_, ?_, ?_⟩
  · rintro rfl
    rw [hpasses] at hfails
    cases hfails
  · intro text htext
    refine ⟨.evaluate s.color background level large, ?_, hpasses,
      (reaches_of_mem_suggest hs).1.symm⟩
    rw [Verdict.ofTexts, Rgb.ofHex_toHex, htext]
    rfl
  · intro request files directory hcheck
    have hagain := ContrastRequest.check_with_foreground hcheck s.color
    exact (exitCode_withSettings files directory _).trans
      (ContrastRequest.exitCode_run hagain hpasses)

/-- `#aaaaaa` on white, with blanks around the colours. -/
def paleRequest : ContrastRequest where
  foreground := " #999999"
  background := "FFFFFF "
  target := some 7.0

/-- The darker grey that is suggested passes. -/
theorem suggestion_passes_when_followed_pale :
    (Verdict.evaluate ⟨153, 153, 153⟩ .white .aa false).passes = false ∧
    Level.aa.requiredRatio false ≤ 7.0 ∧
    ∃ s ∈ suggest ⟨153, 153, 153⟩ .white 7.0, s.color.toHex = "#4e4e4e" ∧
      paleRequest.check (.inUse .empty ⟨"", []⟩) =
        .ok (.perform ⟨153, 153, 153⟩ .white .aa false 7.0) ∧
      (Command.run (.contrast { paleRequest with foreground := s.color.toHex }) .empty
        ⟨"", []⟩).1.exitCode = 0 := by
  have hfails : (Verdict.evaluate ⟨153, 153, 153⟩ .white .aa false).passes = false := by
    decide +kernel
  have htarget : Level.aa.requiredRatio false ≤ 7.0 := by decide
  have hmem : afterSteps ⟨153, 153, 153⟩ .white .darker 5 ∈ suggest ⟨153, 153, 153⟩ .white 7.0 := by
    decide +kernel
  have hcheck :
      paleRequest.check (.inUse .empty ⟨"", []⟩) =
        .ok (.perform ⟨153, 153, 153⟩ .white .aa false 7.0) := by
    have hsettings : Settings.inUse .empty ⟨"", []⟩ = {} := by
      rw [Settings.inUse, Store.load_of_absent rfl]
      rfl
    rw [hsettings]
    exact ContrastRequest.check_eq_ok_iff.mpr
      ⟨by decide, ⟨153, 153, 153⟩, .white, by decide, by decide, rfl⟩
  obtain ⟨-, -, hagain⟩ := suggestion_passes_when_followed hfails htarget _ hmem
  exact ⟨hfails, htarget, _, hmem, by decide, hcheck, hagain _ _ _ hcheck⟩

end Suggestion

end DesignTokens

import DesignTokens.Command.Run
import DesignTokens.Proofs.Number.Literal
import DesignTokens.Proofs.Number.Remainder
import DesignTokens.Proofs.Settings.Store

/-!
# Changing settings

A change of settings is all or nothing (`run_is_atomic`): where it fails the settings file is what
it was, and where it succeeds the settings that are loaded next are those of before with the given
fields replaced.  What a change refuses for itself (`Permitted`) is told apart from what the files
refuse by the exit code.
-/

namespace DesignTokens.SettingsChanges

open Number

variable {changes : SettingsChanges} {files : Files} {directory : Place}
  {before after : Settings} {disk : Disk}

/-! ### The new settings -/

/-- A change that has nothing against it but the files: something is given, the hue is finite if
there is one, and the settings can be loaded, and used after the change. -/
structure Permitted (changes : SettingsChanges) (files : Files) (directory : Place)
    (before : Settings) (disk : Disk := {}) : Prop where
  given : changes.isEmpty = false
  hue : changes.hasBadHue = false
  load : Store.load files directory disk = .ok before
  check : (changes.apply before).check = .ok ()

/-- The new settings are there exactly where the change is permitted, and else the fault is in the
request or in the settings. -/
theorem settingsAfter_cases (changes : SettingsChanges) (files : Files) (directory : Place)
    (disk : Disk) :
    (∃ failure, changes.settingsAfter files directory disk = .error failure ∧
      failure.kind = .validation ∧
      ∀ before, ¬changes.Permitted files directory before disk) ∨
    ∃ before, changes.settingsAfter files directory disk = .ok (changes.apply before) ∧
      changes.Permitted files directory before disk := by
  -- the cases follow the order of the checks
  cases hempty : changes.isEmpty with
  | true =>
    refine .inl ⟨.nothingToSet, by rw [settingsAfter, hempty]; rfl, rfl, fun before h => ?_⟩
    exact absurd h.given (by rw [hempty]; decide)
  | false =>
    cases hload : Store.load files directory disk with
    | error cause =>
      refine .inl ⟨.notLoaded cause, by rw [settingsAfter, hempty, hload]; rfl, rfl,
        fun before h => ?_⟩
      exact absurd (hload.symm.trans h.load) nofun
    | ok before =>
      cases hhue : changes.hasBadHue with
      | true =>
        refine .inl ⟨.hueNotFinite, by rw [settingsAfter, hempty, hload, hhue]; rfl, rfl,
          fun before h => ?_⟩
        exact absurd h.hue (by rw [hhue]; decide)
      | false =>
        have hafter : changes.settingsAfter files directory disk =
            ((changes.apply before).check.mapError .invalidSettings >>= fun _ =>
              .ok (changes.apply before)) := by
          rw [settingsAfter, hempty, hload, hhue]
          rfl
        cases hcheck : (changes.apply before).check with
        | error cause =>
          refine .inl ⟨.invalidSettings cause, by rw [hafter, hcheck]; rfl, rfl,
            fun before' h => ?_⟩
          obtain rfl := Except.ok.inj (hload.symm.trans h.load)
          exact absurd (hcheck.symm.trans h.check) nofun
        | ok => exact .inr ⟨before, by rw [hafter, hcheck]; rfl, hempty, hhue, hload, hcheck⟩

/-- A change leaves the steps alone. -/
theorem stepsFit_apply (changes : SettingsChanges) (h : before.StepsFit) :
    (changes.apply before).StepsFit := h

/-- What settings become: the given fields are replaced, a hue is reduced modulo 360, and all others
are what they were. -/
structure Replaces (changes : SettingsChanges) (before after : Settings) : Prop where
  hue : ∀ hue ∈ changes.hue, after.baseHue = wrap hue 360.0 ∧
    RoundsTo (Int.fract (value hue / 360) * 360) after.baseHue
  ratio : ∀ ratio ∈ changes.ratio, after.typography.ratio = ratio
  baseSize : ∀ baseSize ∈ changes.baseSize, after.typography.baseSize = baseSize
  level : ∀ level ∈ changes.level, after.level = level
  hue_kept : changes.hue = none → after.baseHue = before.baseHue
  ratio_kept : changes.ratio = none → after.typography.ratio = before.typography.ratio
  baseSize_kept : changes.baseSize = none → after.typography.baseSize = before.typography.baseSize
  level_kept : changes.level = none → after.level = before.level
  minViewport_kept : after.typography.minViewport = before.typography.minViewport
  maxViewport_kept : after.typography.maxViewport = before.typography.maxViewport
  steps_kept : after.typography.steps = before.typography.steps
  targetRatio_kept : after.targetRatio = before.targetRatio

theorem replaces_apply (hhue : changes.hasBadHue = false) (before : Settings) :
    changes.Replaces before (changes.apply before) where
  hue hue h := by
    obtain ⟨hturn, hvalue⟩ : Bounded 360 360.0 ∧ value 360.0 = 360 := value_literal 360 (by decide)
    have hfinite : hue.isFinite = true := by
      rw [Option.mem_def] at h
      simpa [hasBadHue, h] using hhue
    have hwrap : (changes.apply before).baseHue = wrap hue 360.0 := by
      rw [apply, Option.mem_def.mp h]
      rfl
    have hround := wrap_roundsTo hfinite hturn.finite (by rw [hvalue]; norm_num)
    rw [hvalue] at hround
    exact ⟨hwrap, hwrap ▸ hround⟩
  ratio ratio h := by rw [apply, Option.mem_def.mp h]; rfl
  baseSize baseSize h := by rw [apply, Option.mem_def.mp h]; rfl
  level level h := by rw [apply, Option.mem_def.mp h]; rfl
  hue_kept h := by rw [apply, h]; rfl
  ratio_kept h := by rw [apply, h]; rfl
  baseSize_kept h := by rw [apply, h]; rfl
  level_kept h := by rw [apply, h]; rfl
  minViewport_kept := rfl
  maxViewport_kept := rfl
  steps_kept := rfl
  targetRatio_kept := rfl

/-! ### The whole command -/

/-- All that a change can do: it is refused before anything is saved, or the save fails, or the save
succeeds. -/
theorem run_cases (changes : SettingsChanges) (files : Files) (directory : Place) (disk : Disk) :
    (∃ failure, changes.run files directory disk = (.failed failure, files) ∧
      failure.kind = .validation ∧
      ∀ before, ¬changes.Permitted files directory before disk) ∨
    ∃ before, changes.Permitted files directory before disk ∧
      ((∃ fault left, Store.saveIn files directory (changes.apply before) disk =
        (.error fault, left) ∧
        changes.run files directory disk = (.failed (.notSaved fault), left)) ∨
      ∃ output saved, Store.saveIn files directory (changes.apply before) disk = (.ok (), saved) ∧
        changes.run files directory disk = ({ output }, saved)) := by
  unfold run
  rcases settingsAfter_cases changes files directory disk with
    ⟨failure, hafter, hkind, hrefused⟩ | ⟨before, hafter, hpermitted⟩
  · exact .inl ⟨failure, by rw [hafter], hkind, hrefused⟩
  · refine .inr ⟨before, hpermitted, ?_⟩
    rw [hafter]
    dsimp only
    rcases hsave : Store.saveIn files directory (changes.apply before) disk with ⟨result, left⟩
    cases result with
    | error fault => exact .inl ⟨fault, left, rfl, rfl⟩
    | ok => exact .inr ⟨_, left, rfl, rfl⟩

/-- A change that is permitted fails for the files where the disk refuses to write. -/
theorem exists_run_of_write_refused (hpermitted : changes.Permitted files directory before disk)
    (hdisk : disk.write ≠ none) :
    ∃ fault left, Command.run (.changeSettings changes) files directory disk =
      (.failed (.notSaved fault), left) := by
  rcases run_cases changes files directory disk with
    ⟨-, -, -, hrefused⟩ | ⟨_, -, ⟨fault, left, -, hrun⟩ | ⟨_, _, hsave, -⟩⟩
  · exact absurd hpermitted (hrefused before)
  · exact ⟨fault, left, hrun⟩
  · obtain ⟨-, made, -, haccepts, -⟩ := Store.saveIn_eq_ok_iff.mp hsave
    exact absurd haccepts.write hdisk

/-- A change of settings is all or nothing, whatever the disk refuses and wherever the save stops.
If it fails, the settings file is what it was, and the exit code is 2 only where the files are at
fault.  If it succeeds, the next load gives the settings of before, the defaults if there was no
file, with the given fields replaced.  It does succeed where it is permitted and the disk makes the
directory and takes the file. -/
theorem run_is_atomic {outcome : Outcome} {left : Files}
    (h : Command.run (.changeSettings changes) files directory disk = (outcome, left)) :
    (outcome.failure ≠ none →
      left.entry (Store.settingsFile directory).location =
        files.entry (Store.settingsFile directory).location) ∧
    (outcome.exitCode = 2 → ∃ fault, outcome.failure = some (.notSaved fault) ∧ fault.IsFileFault) ∧
    (outcome.failure = none → ∃ before after, Store.load files directory = .ok before ∧
      (files.entry (Store.settingsFile directory).location = none → before = {}) ∧
      Store.load left directory = .ok after ∧ changes.Replaces before after) ∧
    (∀ before made, changes.Permitted files directory before disk →
      files.makeDirectory directory.location disk = (.ok (), made) →
        Store.Accepts made directory disk →
      outcome.failure = none) := by
  change changes.run files directory disk = (outcome, left) at h
  rcases run_cases changes files directory disk with
    ⟨failure, hrun, hkind, hrefused⟩
    | ⟨before, hpermitted, ⟨fault, left', hsave, hrun⟩ | ⟨output, saved, hsave, hrun⟩⟩
  all_goals
    rw [hrun, Prod.mk.injEq] at h
    obtain ⟨rfl, rfl⟩ := h
  · refine ⟨fun _ => rfl, fun hexit => ?_, nofun,
      fun before made hpermitted => absurd hpermitted (hrefused before)⟩
    change failure.kind.exitCode = 2 at hexit
    rw [hkind] at hexit
    exact absurd hexit (by decide)
  · obtain ⟨hentry, hfault⟩ := Store.saveIn_error hpermitted.check hsave
    refine ⟨fun _ => hentry, fun _ => ⟨fault, rfl, hfault⟩, nofun,
      fun before' made hpermitted' hmake haccepts => ?_⟩
    have hok := Store.save_eq_ok_iff.mpr ⟨hpermitted.check, haccepts, rfl⟩
    rw [Store.saveIn_of_makeDirectory hmake, hok] at hsave
    cases hsave
  · have hload := Store.load_of_disk hpermitted.load
    have hsteps := stepsFit_apply changes (Store.stepsFit_of_load hload)
    refine ⟨fun hfailure => absurd rfl hfailure, fun hexit => ?_, fun _ => ?_, fun _ _ _ _ _ => rfl⟩
    · change 0 = 2 at hexit
      exact absurd hexit (by decide)
    refine ⟨before, changes.apply before, hload, fun habsent => ?_,
      Store.load_of_saveIn hsteps hsave, replaces_apply hpermitted.hue before⟩
    exact Except.ok.inj (hload.symm.trans (Store.load_of_absent habsent))

/-- The hue `-30`, and a custom ratio with the value of a preset. -/
def turnedBack : SettingsChanges := { hue := some (-30.0), ratio := some (.custom 1.5) }

/-- A disk on which a write stops within the first line of settings. -/
def fullDisk : Disk where
  write := some (.other "No space left on device (os error 28)", some (.file "[pal".toUTF8))

/-- Where nothing was kept, the change is made to the defaults; on a full disk the old settings
stay. -/
theorem run_is_atomic_turnedBack :
    (∃ outcome left, Command.run (.changeSettings turnedBack) .empty ⟨"", []⟩ = (outcome, left) ∧
      outcome.failure = none ∧
      ∃ after, Store.load left ⟨"", []⟩ = .ok after ∧ turnedBack.Replaces {} after ∧
        after.baseHue = 330.0) ∧
    ∃ files outcome left, Store.load files ⟨"", []⟩ = .ok Store.unusual ∧
      Command.run (.changeSettings turnedBack) files ⟨"", []⟩ fullDisk = (outcome, left) ∧
      outcome.exitCode = 2 ∧
      left.entry (Store.settingsFile ⟨"", []⟩).location =
        some (.file (Store.content Store.unusual)) := by
  constructor
  · rcases hrun : Command.run (.changeSettings turnedBack) .empty ⟨"", []⟩ with ⟨outcome, left⟩
    obtain ⟨-, -, hsuccess, hprogress⟩ := run_is_atomic hrun
    have hpermitted : turnedBack.Permitted .empty ⟨"", []⟩ {} :=
      ⟨by decide, by decide, Store.load_of_absent rfl, by decide⟩
    have hnone := hprogress {} .empty hpermitted rfl ⟨rfl, nofun, nofun, rfl, rfl⟩
    obtain ⟨before, after, hbefore, hdefault, hafter, hreplaces⟩ := hsuccess hnone
    obtain rfl := hdefault rfl
    refine ⟨outcome, left, rfl, hnone, after, hafter, hreplaces, ?_⟩
    rw [(hreplaces.hue (-30.0) rfl).1]
    decide
  · have hload :
        Store.load (Store.kept .empty ⟨"", []⟩ Store.unusual) ⟨"", []⟩ = .ok Store.unusual :=
      Store.load_kept .empty ⟨"", []⟩ (by decide) (by decide)
    have hpermitted :
        turnedBack.Permitted (Store.kept .empty ⟨"", []⟩ Store.unusual) ⟨"", []⟩
          Store.unusual fullDisk :=
      ⟨by decide, by decide, (Store.load_of_read rfl _ _).trans hload, by decide⟩
    obtain ⟨fault, left, hrun⟩ := exists_run_of_write_refused hpermitted nofun
    obtain ⟨hunchanged, -⟩ := run_is_atomic hrun
    exact ⟨_, _, left, hload, hrun, rfl, (hunchanged nofun).trans (Store.entry_kept ..)⟩

end DesignTokens.SettingsChanges

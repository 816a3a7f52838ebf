import DesignTokens.Proofs.Settings.Store
import DesignTokens.Settings.Session

/-!
# Settings are safe in every session

What one action can do to the settings file is said once (`entry_perform`): an action that is not a
successful save, and not a write or removal that succeeds or stops midway, leaves a file there
alone, whatever the disk refuses.  So what was saved is loaded again after any actions that spare
the file (`load_performAll`), and every point of every session is safe (`every_point_is_safe`):
loads give settings that can be used or change nothing, and saves keep the settings or leave the old
ones.
-/

namespace DesignTokens

/-- An action that keeps the steps of settings 32-bit integers; only a change of settings could do
otherwise. -/
def SessionAction.KeepsStepsFit : SessionAction → Prop
  | change map => ∀ settings : Settings, settings.StepsFit → (map settings).StepsFit
  | write _ | remove | makeDirectory _ | load | save | check => True

namespace Session

variable {directory : Place} {session next : Session} {action : SessionAction} {disk : Disk}
variable {steps : List (SessionAction × Disk)}

/-! ### One action -/

/-- Whether an action saves the settings with success, or writes or removes the settings file
itself: with success, or so that it stops midway and leaves something else there. -/
def Rewrites (directory : Place) (session : Session) (action : SessionAction)
    (disk : Disk) : Prop :=
  match action with
  | .save => (session.perform directory action disk).1.isOk = true
  | .write _ | .remove =>
    (session.perform directory action disk).1.isOk = true ∨
      (session.perform directory action disk).2.files.entry
          (Store.settingsFile directory).location ≠
        session.files.entry (Store.settingsFile directory).location
  | .makeDirectory _ | .load | .check | .change _ => False

@[simp]
theorem settings_perform_save (directory : Place) (session : Session) (disk : Disk) :
    (session.perform directory .save disk).2.settings = session.settings :=
  rfl

@[simp]
theorem settings_perform_change (directory : Place) (session : Session) (map : Settings → Settings)
    (disk : Disk) :
    (session.perform directory (.change map) disk).2.settings = map session.settings :=
  rfl

/-- The steps of settings in memory stay 32-bit integers, whether they are loaded, changed or left
alone. -/
theorem stepsFit_perform (h : session.settings.StepsFit) (haction : action.KeepsStepsFit)
    (disk : Disk) : (session.perform directory action disk).2.settings.StepsFit := by
  cases action with
  | write content | remove | makeDirectory path | save | check => exact h
  | load =>
    rw [perform]
    cases hload : Store.load session.files directory disk with
    | error fault => exact h
    | ok loaded => exact Store.stepsFit_of_load (Store.load_of_disk hload)
  | change map => exact haction session.settings h

/-- An action that does not rewrite the settings file leaves a file there alone. -/
theorem entry_perform {bytes : ByteArray}
    (h : session.files.entry (Store.settingsFile directory).location = some (.file bytes))
    (hspared : ¬session.Rewrites directory action disk) :
    (session.perform directory action disk).2.files.entry (Store.settingsFile directory).location =
      some (.file bytes) := by
  cases action with
  | write content | remove =>
    exact (not_ne_iff.mp fun hchanged => hspared (.inr hchanged)).trans h
  | makeDirectory path => exact Files.entry_makeDirectory_of_some h _ disk
  | load =>
    rw [perform]
    cases Store.load session.files directory disk with
    | error fault => exact h
    | ok loaded => exact h
  | save =>
    unfold Rewrites at hspared
    rw [perform] at hspared ⊢
    rcases hsave : Store.save session.files directory session.settings disk with ⟨result, files⟩
    rw [hsave] at hspared
    cases result with
    | error fault => exact (Store.entry_of_save_error hsave).trans h
    | ok => exact absurd rfl hspared
  | check | change map => exact h

/-! ### Runs -/

/-- Whether no action of a run rewrites the settings file. -/
def Spares (directory : Place) : Session → List (SessionAction × Disk) → Prop
  | _, [] => True
  | session, (action, disk) :: steps =>
    ¬session.Rewrites directory action disk ∧
      Spares directory (session.perform directory action disk).2 steps

theorem performAll_cons (directory : Place) (session : Session)
    (action : SessionAction) (disk : Disk) (steps : List (SessionAction × Disk)) :
    session.performAll directory ((action, disk) :: steps) =
      (session.perform directory action disk).2.performAll directory steps :=
  rfl

theorem stepsFit_performAll (directory : Place) (h : session.settings.StepsFit)
    (hsteps : ∀ step ∈ steps, step.1.KeepsStepsFit) :
    (session.performAll directory steps).settings.StepsFit := by
  induction steps generalizing session with
  | nil => exact h
  | cons step steps ih =>
    rw [performAll_cons]
    exact ih (stepsFit_perform h (hsteps step List.mem_cons_self) step.2)
      fun other hother => hsteps other (List.mem_cons_of_mem step hother)

theorem entry_performAll {bytes : ByteArray}
    (h : session.files.entry (Store.settingsFile directory).location = some (.file bytes))
    (hspared : Spares directory session steps) :
    (session.performAll directory steps).files.entry (Store.settingsFile directory).location =
      some (.file bytes) := by
  induction steps generalizing session with
  | nil => exact h
  | cons step steps ih =>
    rw [performAll_cons]
    exact ih (entry_perform h hspared.1) hspared.2

/-! ### Safety -/

/-- What a load and a save do at one point of a session, whatever the disk refuses. -/
structure SafeAt (directory : Place) (session : Session) : Prop where
  /-- What is loaded can be used. -/
  load_ok : ∀ disk next, session.perform directory .load disk = (.ok (), next) →
    next.settings.check = .ok ()
  /-- A load that fails leaves the settings in memory, and the files, as they were. -/
  load_error : ∀ disk fault next, session.perform directory .load disk = (.error fault, next) →
    next = session
  /-- A save that fails leaves the settings file as it was. -/
  save_error : ∀ disk fault next, session.perform directory .save disk = (.error fault, next) →
    next.files.entry (Store.settingsFile directory).location =
      session.files.entry (Store.settingsFile directory).location
  /-- A save of settings that cannot be used changes nothing at all. -/
  save_invalid : ∀ disk cause, session.settings.check = .error cause →
    session.perform directory .save disk = (.error (.store (.invalid cause)), session)
  /-- Settings that can be used are saved wherever the files and the disk take them. -/
  save_accepted : ∀ disk, session.settings.check = .ok () →
    Store.Accepts session.files directory disk →
    ∃ next, session.perform directory .save disk = (.ok (), next)
  /-- After a save there is no temporary file, and as long as the settings file is spared a load
  gives what was saved, unless the disk refuses to read. -/
  save_ok : ∀ disk next, session.perform directory .save disk = (.ok (), next) →
    next.files.entry (Store.temporaryFile directory).location = none ∧
      ∀ steps, Spares directory next steps → ∀ later, next.performAll directory steps = later →
        ∀ disk, disk.read = none →
          later.perform directory .load disk = (.ok (), { later with settings := session.settings })

/-- All that a load can do: give settings to the memory, or fail and change nothing. -/
theorem perform_load_cases (directory : Place) (session : Session) (disk : Disk) :
    (∃ fault, session.perform directory .load disk = (.error (.store fault), session)) ∨
    ∃ loaded, Store.load session.files directory disk = .ok loaded ∧
      session.perform directory .load disk = (.ok (), { session with settings := loaded }) := by
  rw [perform]
  cases Store.load session.files directory disk with
  | error fault => exact .inl ⟨fault, rfl⟩
  | ok loaded => exact .inr ⟨loaded, rfl, rfl⟩

/-- All that a save can do: fail or succeed as the store does, with the files that the store
leaves. -/
theorem perform_save_cases (directory : Place) (session : Session) (disk : Disk) :
    (∃ fault left, Store.save session.files directory session.settings disk = (.error fault, left) ∧
      session.perform directory .save disk =
        (.error (.store fault), { session with files := left })) ∨
    ∃ saved, Store.save session.files directory session.settings disk = (.ok (), saved) ∧
      session.perform directory .save disk = (.ok (), { session with files := saved }) := by
  rw [perform]
  rcases Store.save session.files directory session.settings disk with ⟨result, files⟩
  cases result with
  | error fault => exact .inl ⟨fault, files, rfl, rfl⟩
  | ok => exact .inr ⟨files, rfl, rfl⟩

theorem perform_save_eq_ok_iff :
    session.perform directory .save disk = (.ok (), next) ↔
      session.settings.check = .ok () ∧ Store.Accepts session.files directory disk ∧
        next = { session with files := Store.kept session.files directory session.settings } := by
  rcases perform_save_cases directory session disk with
    ⟨fault, left, hsave, hperform⟩ | ⟨saved, hsave, hperform⟩
  · rw [hperform]
    refine iff_of_false nofun ?_
    rintro ⟨hcheck, haccepts, -⟩
    exact absurd (hsave.symm.trans (Store.save_eq_ok_iff.mpr ⟨hcheck, haccepts, rfl⟩)) nofun
  · obtain ⟨hcheck, haccepts, rfl⟩ := Store.save_eq_ok_iff.mp hsave
    simp [hperform, hcheck, haccepts, eq_comm]

/-- A save rewrites the settings file exactly if the settings can be used and are taken. -/
theorem rewrites_save_iff :
    session.Rewrites directory .save disk ↔
      session.settings.check = .ok () ∧ Store.Accepts session.files directory disk := by
  unfold Rewrites
  constructor
  · rcases perform_save_cases directory session disk with
      ⟨fault, left, -, hperform⟩ | ⟨saved, -, hperform⟩
    · rw [hperform]
      nofun
    · intro _
      obtain ⟨hcheck, haccepts, -⟩ := perform_save_eq_ok_iff.mp hperform
      exact ⟨hcheck, haccepts⟩
  · rintro ⟨hcheck, haccepts⟩
    rw [perform_save_eq_ok_iff.mpr ⟨hcheck, haccepts, rfl⟩]
    rfl

/-- What was saved is loaded again as long as the settings file is spared. -/
theorem load_performAll (hfit : session.settings.StepsFit)
    (hsave : session.perform directory .save disk = (.ok (), next))
    (hspared : Spares directory next steps) :
    Store.load (next.performAll directory steps).files directory = .ok session.settings := by
  obtain ⟨hcheck, -, rfl⟩ := perform_save_eq_ok_iff.mp hsave
  rw [Store.load_of_entry (entry_performAll (Store.entry_kept ..) hspared),
    Store.decode_content _ hfit hcheck]

theorem safeAt_of_stepsFit (directory : Place) (hfit : session.settings.StepsFit) :
    session.SafeAt directory where
  load_ok disk next h := by
    rcases perform_load_cases directory session disk with
      ⟨fault, hperform⟩ | ⟨loaded, hload, hperform⟩
    · exact absurd (hperform.symm.trans h) nofun
    · obtain rfl := (Prod.mk.inj (hperform.symm.trans h)).2
      exact Store.check_of_load (Store.load_of_disk hload)
  load_error disk fault next h := by
    rcases perform_load_cases directory session disk with ⟨fault', hperform⟩ | ⟨loaded, -, hperform⟩
    · exact (Prod.mk.inj (h.symm.trans hperform)).2
    · exact absurd (hperform.symm.trans h) nofun
  save_error disk fault next h := by
    rcases perform_save_cases directory session disk with
      ⟨fault', left, hsave, hperform⟩ | ⟨saved, -, hperform⟩
    · obtain rfl := (Prod.mk.inj (hperform.symm.trans h)).2
      exact Store.entry_of_save_error hsave
    · exact absurd (hperform.symm.trans h) nofun
  save_invalid disk cause h := by
    rw [perform, Store.save, h]
    rfl
  save_accepted disk hcheck haccepts := ⟨_, perform_save_eq_ok_iff.mpr ⟨hcheck, haccepts, rfl⟩⟩
  save_ok disk next h := by
    refine ⟨?_, ?_⟩
    · obtain ⟨-, -, rfl⟩ := perform_save_eq_ok_iff.mp h
      exact Store.entry_temporaryFile_kept ..
    · rintro steps hspared later rfl disk' hread
      rw [perform, Store.load_of_read hread, load_performAll hfit h hspared]
      rfl

/-- Every point of every session is safe, from whatever files and settings it set out and whatever
the disk refused on the way. -/
theorem every_point_is_safe (directory : Place) {start : Session}
    {steps : List (SessionAction × Disk)} (hstart : start.settings.StepsFit)
    (hsteps : ∀ step ∈ steps, step.1.KeepsStepsFit) :
    (start.performAll directory steps).SafeAt directory :=
  safeAt_of_stepsFit directory (stepsFit_performAll directory hstart hsteps)

/-- A save that stops midway, a save whose rename is refused, a change to settings that cannot be
used, a save of them, and a directory in place of the settings file. -/
def mishaps : List (SessionAction × Disk) :=
  let full := FileCause.other "No space left on device (os error 28)"
  let broken := FileCause.other "Input/output error (os error 5)"
  [ (.save, { write := some (full, some (.file "[pal".toUTF8)) }),
    (.save, { rename := some broken }),
    (.change fun settings => { settings with targetRatio := some 0.5 }, {}),
    (.save, {}),
    (.makeDirectory "config.toml", {}) ]

/-- Unusual settings that were saved survive the mishaps. -/
theorem every_point_is_safe_mishaps :
    ({} : Session).settings.StepsFit ∧
    (∀ step ∈ [(SessionAction.change fun _ => Store.unusual, ({} : Disk))], step.1.KeepsStepsFit) ∧
    ∃ next,
      (performAll ⟨"", []⟩ {} [(.change fun _ => Store.unusual, {})]).perform ⟨"", []⟩ .save =
        (.ok (), next) ∧
      Spares ⟨"", []⟩ next mishaps ∧
      (next.performAll ⟨"", []⟩ mishaps).perform ⟨"", []⟩ .load =
        (.ok (), { next.performAll ⟨"", []⟩ mishaps with settings := Store.unusual }) := by
  have hstart : ({} : Session).settings.StepsFit := by decide
  have hsteps :
      ∀ step ∈ [(SessionAction.change fun _ => Store.unusual, ({} : Disk))],
        step.1.KeepsStepsFit := by
    intro step hstep
    obtain rfl := List.mem_singleton.mp hstep
    have hunusual : Store.unusual.StepsFit := by decide
    exact fun _ _ => hunusual
  have hsafe := every_point_is_safe ⟨"", []⟩ hstart hsteps
  obtain ⟨next, hsave⟩ := hsafe.save_accepted {} (by decide) ⟨rfl, nofun, nofun, rfl, rfl⟩
  have hspared : Spares ⟨"", []⟩ next mishaps := by
    obtain ⟨-, -, rfl⟩ := perform_save_eq_ok_iff.mp hsave
    unfold mishaps
    simp only [Spares, rewrites_save_iff]
    refine ⟨fun h => absurd h.2.write nofun, fun h => absurd h.2.rename nofun, nofun,
      fun h => absurd h.1 ?_, nofun, trivial⟩
    simp only [settings_perform_change, settings_perform_save]
    decide
  exact ⟨hstart, hsteps, next, hsave, hspared,
    (hsafe.save_ok {} next hsave).2 mishaps hspared _ rfl {} rfl⟩

end Session

end DesignTokens

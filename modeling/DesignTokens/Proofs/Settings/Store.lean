import DesignTokens.Proofs.Files
import DesignTokens.Proofs.Settings.Document
import DesignTokens.Settings.Store

/-!
# Saving and loading settings

A save succeeds exactly where the settings can be used and the files and the disk take them, and
what it leaves is known in full (`save_eq_ok_iff`).  A save that fails, whatever the disk refuses
and wherever it stops, leaves the settings file as it was, and fails for the files alone if the
settings can be used (`entry_of_save_error`, `isFileFault_of_save_error`).  Loading is the inverse
of saving (`load_after_save`).
-/

namespace DesignTokens

/-- Whether the files are at fault. -/
def StoreFault.IsFileFault : StoreFault → Prop
  | .noDirectory .. | .noTemporary .. | .notMoved .. => True
  | .unreadable .. | .malformed _ | .invalid _ => False

namespace Store

variable {files : Files} {directory : Place} {settings : Settings} {disk : Disk}

/-! ### Places -/

theorem location_settingsFile (directory : Place) :
    (settingsFile directory).location = directory.location ++ ["config.toml"] := by
  have hnames : Place.names "config.toml" = ["config.toml"] := by decide
  rw [settingsFile, Place.child, hnames]

theorem location_temporaryFile (directory : Place) :
    (temporaryFile directory).location = directory.location ++ ["config.toml.tmp"] := by
  have hnames : Place.names "config.toml.tmp" = ["config.toml.tmp"] := by decide
  rw [temporaryFile, Place.child, hnames]

theorem settingsFile_ne_temporaryFile (directory : Place) :
    (settingsFile directory).location ≠ (temporaryFile directory).location := by
  simp [location_settingsFile, location_temporaryFile]

/-! ### Saving -/

/-- Files among which settings can be saved in a directory, on a disk that lets it happen. -/
structure Accepts (files : Files) (directory : Place) (disk : Disk := {}) : Prop where
  reachable : files.obstacle? (temporaryFile directory).location = none
  temporary : files.entry (temporaryFile directory).location ≠ some .directory
  file : files.entry (settingsFile directory).location ≠ some .directory
  write : disk.write = none
  rename : disk.rename = none

/-- Files after settings were saved. -/
def kept (files : Files) (directory : Place) (settings : Settings) : Files :=
  (files.set (temporaryFile directory).location none).set (settingsFile directory).location
    (some (.file (content settings)))

@[simp]
theorem entry_kept (files : Files) (directory : Place) (settings : Settings) :
    (kept files directory settings).entry (settingsFile directory).location =
      some (.file (content settings)) :=
  Files.entry_set_self ..

/-- After a save there is no temporary file. -/
theorem entry_temporaryFile_kept (files : Files) (directory : Place) (settings : Settings) :
    (kept files directory settings).entry (temporaryFile directory).location = none := by
  rw [kept, Files.entry_set_of_ne _ (settingsFile_ne_temporaryFile directory).symm,
    Files.entry_set_self]

/-- Files with settings in the temporary file, before it is moved. -/
def staged (files : Files) (directory : Place) (settings : Settings) : Files :=
  files.set (temporaryFile directory).location (some (.file (content settings)))

theorem entry_staged (files : Files) (directory : Place) (settings : Settings) :
    (staged files directory settings).entry (settingsFile directory).location =
      files.entry (settingsFile directory).location :=
  Files.entry_set_of_ne files (settingsFile_ne_temporaryFile directory) _

/-- All that the move over the settings file can do: keep the settings, or be refused and change
nothing. -/
theorem rename_staged_cases (files : Files) (directory : Place) (settings : Settings)
    (disk : Disk) :
    (¬(disk.rename = none ∧ files.entry (settingsFile directory).location ≠ some .directory) ∧
      ∃ cause, (staged files directory settings).rename (temporaryFile directory).location
        (settingsFile directory).location disk = (.error cause, staged files directory settings)) ∨
    ((disk.rename = none ∧ files.entry (settingsFile directory).location ≠ some .directory) ∧
      (staged files directory settings).rename (temporaryFile directory).location
        (settingsFile directory).location disk = (.ok (), kept files directory settings)) := by
  have hsource : (staged files directory settings).entry (temporaryFile directory).location =
      some (.file (content settings)) := Files.entry_set_self ..
  have htarget := entry_staged files directory settings
  rcases hrename : (staged files directory settings).rename (temporaryFile directory).location
      (settingsFile directory).location disk with ⟨result, moved⟩
  cases result with
  | error cause =>
    obtain rfl := Files.files_of_rename_error hrename
    refine .inl ⟨?_, cause, rfl⟩
    rintro ⟨hdisk, hfile⟩
    rw [(Files.rename_eq_ok_iff hsource).mpr ⟨hdisk, htarget.trans_ne hfile, rfl⟩] at hrename
    cases hrename
  | ok =>
    obtain ⟨hdisk, hfile, rfl⟩ := (Files.rename_eq_ok_iff hsource).mp hrename
    refine .inr ⟨⟨hdisk, htarget ▸ hfile⟩, ?_⟩
    rw [staged, Files.set_set_self]
    rfl

/-- All that a save can do: settings that cannot be used change nothing, then the temporary file or
the move over the settings file can be refused, which leaves the settings file alone, else the
settings are kept. -/
theorem save_cases (files : Files) (directory : Place) (settings : Settings) (disk : Disk) :
    (∃ cause, settings.check = .error cause ∧
      save files directory settings disk = (.error (.invalid cause), files)) ∨
    (settings.check = .ok () ∧ ¬Accepts files directory disk ∧ ∃ fault left,
      save files directory settings disk = (.error fault, left) ∧ fault.IsFileFault ∧
        left.entry (settingsFile directory).location =
          files.entry (settingsFile directory).location) ∨
    (settings.check = .ok () ∧ Accepts files directory disk ∧
      save files directory settings disk = (.ok (), kept files directory settings)) := by
  unfold save
  cases hcheck : settings.check with
  | error cause => exact .inl ⟨cause, rfl, rfl⟩
  | ok =>
    refine .inr ?_
    dsimp only
    -- the two files are not the same, so that the settings file is untouched until the move
    have hfile := Files.entry_write_of_ne files (settingsFile_ne_temporaryFile directory)
      (content settings) disk
    rcases hwrite :
      files.write (temporaryFile directory).location (content settings) disk with ⟨result, written⟩
    rw [hwrite] at hfile
    cases result with
    | error cause =>
      refine .inl ⟨rfl, fun haccepts => ?_, _, written, rfl, trivial, hfile⟩
      rw [Files.write_eq_ok_iff.mpr
        ⟨haccepts.write, haccepts.reachable, haccepts.temporary, rfl⟩] at hwrite
      cases hwrite
    | ok =>
      obtain ⟨hdisk, hreachable, htemporary, rfl⟩ := Files.write_eq_ok_iff.mp hwrite
      dsimp only
      rw [← staged]
      rcases rename_staged_cases files directory settings disk with
        ⟨hrefused, cause, hrename⟩ | ⟨⟨hdisk', hfile'⟩, hrename⟩
      · rw [hrename]
        exact .inl ⟨rfl, fun haccepts => hrefused ⟨haccepts.rename, haccepts.file⟩, _, _, rfl,
          trivial, entry_staged files directory settings⟩
      · rw [hrename]
        exact .inr ⟨rfl, ⟨hreachable, htemporary, hfile', hdisk, hdisk'⟩, rfl⟩

theorem save_eq_ok_iff {saved : Files} :
    save files directory settings disk = (.ok (), saved) ↔
      settings.check = .ok () ∧ Accepts files directory disk ∧
      saved = kept files directory settings := by
  rcases save_cases files directory settings disk with
    ⟨_, hcheck, hsave⟩ | ⟨_, hrefused, _, _, hsave, -⟩ | ⟨hcheck, haccepts, hsave⟩
  · simp [hsave, hcheck]
  · simp [hsave, hrefused]
  · simp [hsave, hcheck, haccepts, eq_comm]

/-- A save that fails leaves the settings file as it was. -/
theorem entry_of_save_error {fault : StoreFault} {left : Files}
    (h : save files directory settings disk = (.error fault, left)) :
    left.entry (settingsFile directory).location =
      files.entry (settingsFile directory).location := by
  rcases save_cases files directory settings disk with
    ⟨_, -, hsave⟩ | ⟨-, -, _, _, hsave, -, hentry⟩ | ⟨-, -, hsave⟩
  all_goals
    rw [hsave, Prod.mk.injEq] at h
    obtain ⟨hfault, rfl⟩ := h
  · rfl
  · exact hentry
  · cases hfault

/-- Where settings can be used, only the files can make a save fail. -/
theorem isFileFault_of_save_error {fault : StoreFault} {left : Files}
    (hcheck : settings.check = .ok ())
    (h : save files directory settings disk = (.error fault, left)) : fault.IsFileFault := by
  rcases save_cases files directory settings disk with
    ⟨_, hinvalid, -⟩ | ⟨-, -, _, _, hsave, hfault, -⟩ | ⟨-, -, hsave⟩
  · exact absurd (hcheck.symm.trans hinvalid) nofun
  · exact Except.error.inj (Prod.mk.inj (hsave.symm.trans h)).1 ▸ hfault
  · exact absurd (hsave.symm.trans h) nofun

/-- Files that took settings take them again. -/
theorem Accepts.kept (h : Accepts files directory disk) (settings : Settings) :
    Accepts (kept files directory settings) directory disk where
  reachable := by
    rw [Store.kept, Files.obstacle?_set_of_length_le
      _ (by simp [location_settingsFile, location_temporaryFile]),
      Files.obstacle?_set_of_length_le _ le_rfl, h.reachable]
  temporary := by
    rw [entry_temporaryFile_kept]
    nofun
  file := by
    rw [entry_kept]
    simp
  write := h.write
  rename := h.rename

/-- What was kept is replaced as a whole by what is kept after it. -/
theorem kept_kept (files : Files) (directory : Place) (first last : Settings) :
    kept (kept files directory first) directory last = kept files directory last := by
  unfold kept
  rw [Files.set_comm _ (settingsFile_ne_temporaryFile directory), Files.set_set_self,
    Files.set_set_self]

/-! ### Loading -/

theorem ofBytes?_toUTF8 (text : String) : Text.ofBytes? text.toUTF8 = some text := by
  have hvalid : text.toUTF8.IsValidUTF8 := text.isValidUTF8
  rw [Text.ofBytes?, String.fromUTF8?, dif_pos hvalid]
  rfl

/-- `decode` is a left inverse of `content`. -/
theorem decode_content (path : String) (hsteps : settings.StepsFit)
    (hcheck : settings.check = .ok ()) : decode path (content settings) = .ok settings := by
  simp only [decode, content, ofBytes?_toUTF8, Settings.ofToml?_toToml hsteps, hcheck]

theorem load_of_entry {bytes : ByteArray}
    (h : files.entry (settingsFile directory).location = some (.file bytes)) :
    load files directory = decode (settingsFile directory).text bytes := by
  simp [load, Files.holds, Files.read, h]

theorem load_kept (files : Files) (directory : Place) (hsteps : settings.StepsFit)
    (hcheck : settings.check = .ok ()) :
    load (kept files directory settings) directory = .ok settings := by
  rw [load_of_entry (entry_kept files directory settings), decode_content _ hsteps hcheck]

/-- Settings in the content of a file were read from its text and checked. -/
theorem exists_document_of_decode {path : String} {bytes : ByteArray}
    (h : decode path bytes = .ok settings) :
    ∃ document, Settings.ofToml? document = some settings ∧ settings.check = .ok () := by
  unfold decode at h
  split at h
  case h_1 => cases h
  case h_2 document _ =>
    split at h
    case h_1 => cases h
    case h_2 read hread =>
      split at h
      case h_1 => cases h
      case h_2 hcheck =>
        cases h
        exact ⟨document, hread, hcheck⟩

/-- Settings that were loaded are the defaults, or were read from a document and checked. -/
theorem load_source (h : load files directory = .ok settings) :
    settings = {} ∨ ∃ document,
      Settings.ofToml? document = some settings ∧ settings.check = .ok () := by
  unfold load at h
  dsimp only at h
  split at h
  case isTrue =>
    split at h
    case h_1 => cases h
    case h_2 bytes _ => exact .inr (exists_document_of_decode h)
  case isFalse =>
    cases h
    exact .inl rfl

/-- The steps of settings that were loaded are 32-bit integers. -/
theorem stepsFit_of_load (h : load files directory = .ok settings) : settings.StepsFit := by
  rcases load_source h with rfl | ⟨document, hread, -⟩
  · decide
  · exact Settings.stepsFit_of_ofToml? hread

/-- Settings that were loaded can be used. -/
theorem check_of_load (h : load files directory = .ok settings) : settings.check = .ok () := by
  rcases load_source h with rfl | ⟨-, -, hcheck⟩
  · decide
  · exact hcheck

/-- A disk that does not refuse to read has no part in a load. -/
theorem load_of_read (hdisk : disk.read = none) (files : Files) (directory : Place) :
    load files directory disk = load files directory := by
  unfold load Files.read
  rw [hdisk]

/-- What is loaded from any disk is what stands in the file. -/
theorem load_of_disk (h : load files directory disk = .ok settings) :
    load files directory = .ok settings := by
  cases hdisk : disk.read with
  | none => rwa [load_of_read hdisk] at h
  | some cause =>
    unfold load Files.read at h ⊢
    rw [hdisk] at h
    dsimp only at h ⊢
    split_ifs at h ⊢
    exact h

theorem load_of_absent (h : files.entry (settingsFile directory).location = none) :
    load files directory = .ok {} := by
  simp [load, Files.holds, h]

/-! ### Saving in a directory that may be missing -/

theorem saveIn_of_makeDirectory {made : Files}
    (h : files.makeDirectory directory.location disk = (.ok (), made)) (settings : Settings) :
    saveIn files directory settings disk = save made directory settings disk := by
  rw [saveIn, h]

/-- Making the directory leaves the settings file as it was, whether it is refused or not. -/
theorem entry_settingsFile_makeDirectory (files : Files) (directory : Place) (disk : Disk) :
    (files.makeDirectory directory.location disk).2.entry (settingsFile directory).location =
      files.entry (settingsFile directory).location :=
  Files.entry_makeDirectory_of_lt files disk (by simp [location_settingsFile])

/-- A save that fails, for the directory too, leaves the settings file as it was; where settings can
be used, only the files can make it fail. -/
theorem saveIn_error {fault : StoreFault} {left : Files} (hcheck : settings.check = .ok ())
    (h : saveIn files directory settings disk = (.error fault, left)) :
    left.entry (settingsFile directory).location = files.entry (settingsFile directory).location ∧
      fault.IsFileFault := by
  have hentry := entry_settingsFile_makeDirectory files directory disk
  rcases hmake : files.makeDirectory directory.location disk with ⟨result, made⟩
  rw [hmake] at hentry
  cases result with
  | error cause =>
    rw [saveIn, hmake, Prod.mk.injEq] at h
    obtain ⟨hfault, rfl⟩ := h
    exact ⟨hentry, Except.error.inj hfault ▸ trivial⟩
  | ok =>
    rw [saveIn_of_makeDirectory hmake] at h
    exact ⟨(entry_of_save_error h).trans hentry, isFileFault_of_save_error hcheck h⟩

theorem saveIn_eq_ok_iff {saved : Files} :
    saveIn files directory settings disk = (.ok (), saved) ↔
      settings.check = .ok () ∧ ∃ made,
        files.makeDirectory directory.location disk = (.ok (), made) ∧
        Accepts made directory disk ∧ saved = kept made directory settings := by
  rcases hmake : files.makeDirectory directory.location disk with ⟨result, made⟩
  cases result with
  | error cause => simp [saveIn, hmake]
  | ok => simp [saveIn_of_makeDirectory hmake, save_eq_ok_iff]

theorem load_of_saveIn {saved : Files} (hsteps : settings.StepsFit)
    (h : saveIn files directory settings disk = (.ok (), saved)) :
    load saved directory = .ok settings := by
  obtain ⟨hcheck, made, -, -, rfl⟩ := saveIn_eq_ok_iff.mp h
  exact load_kept made directory hsteps hcheck

/-- A directory in which settings were kept need not be made again. -/
theorem makeDirectory_kept {made : Files}
    (h : files.makeDirectory directory.location disk = (.ok (), made)) (settings : Settings) :
    (kept made directory settings).makeDirectory directory.location =
      (.ok (), kept made directory settings) := by
  refine Files.makeDirectory_eq_self fun place hplace => ?_
  have hlength := Files.length_le_of_mem_places hplace
  -- neither of the two files lies on the way to the directory
  have hfile : place ≠ (settingsFile directory).location := by
    rintro rfl
    simp [location_settingsFile] at hlength
  have htemporary : place ≠ (temporaryFile directory).location := by
    rintro rfl
    simp [location_temporaryFile] at hlength
  rw [kept, Files.entry_set_of_ne _ hfile, Files.entry_set_of_ne _ htemporary,
    Files.entry_made h hplace]

/-! ### Inverses -/

/-- After a save the settings that were saved are loaded, and saving them again leaves the same
bytes. -/
theorem load_after_save {saved : Files} (hsteps : settings.StepsFit)
    (hsave : save files directory settings = (.ok (), saved)) :
    load saved directory = .ok settings ∧
      ∃ bytes again, saved.entry (settingsFile directory).location = some (.file bytes) ∧
        save saved directory settings = (.ok (), again) ∧
        again.entry (settingsFile directory).location = some (.file bytes) := by
  obtain ⟨hcheck, haccepts, rfl⟩ := save_eq_ok_iff.mp hsave
  have hagain := save_eq_ok_iff.mpr ⟨hcheck, haccepts.kept settings, rfl⟩
  exact ⟨load_kept files directory hsteps hcheck, content settings, _, entry_kept .., hagain,
    entry_kept ..⟩

/-- Settings that are hard to keep: the hue NaN, a custom ratio with the value of a preset, widths
that are not dyadic, and a single step. -/
def unusual : Settings where
  baseHue := Number.nan
  typography :=
    { baseSize := 0.1
      ratio := .custom 1.333
      minViewport := -0.0
      maxViewport := 1280.7
      steps := [-1] }
  level := .aaa

/-- Unusual settings are kept in a tree with nothing but a root. -/
theorem load_after_save_unusual :
    unusual.StepsFit ∧ ∃ saved, save .empty ⟨"", []⟩ unusual = (.ok (), saved) ∧
      load saved ⟨"", []⟩ = .ok unusual ∧
      ∃ bytes again, saved.entry (settingsFile ⟨"", []⟩).location = some (.file bytes) ∧
        save saved ⟨"", []⟩ unusual = (.ok (), again) ∧
        again.entry (settingsFile ⟨"", []⟩).location = some (.file bytes) := by
  have hsteps : unusual.StepsFit := by decide
  have hsave := save_eq_ok_iff.mpr
    ⟨(by decide : unusual.check = .ok ()),
      (⟨by rfl, nofun, nofun, rfl, rfl⟩ : Accepts .empty ⟨"", []⟩), rfl⟩
  exact ⟨hsteps, _, hsave, load_after_save hsteps hsave⟩

end Store

end DesignTokens

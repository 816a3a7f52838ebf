import DesignTokens.Proofs.Command.ChangeSettings

/-!
# Changes that are independent of each other

Two changes of settings that give no option in common can be made in either order or at once.  On
settings in memory this is a matter of their fields (`apply_merge`, `merge_comm`).  It carries over
to the files since nothing is lost between two changes: the second one loads exactly what the first
one made (`makes_iff`, `Makes.second_on_first`).
-/

namespace DesignTokens.SettingsChanges

variable {first second changes : SettingsChanges} {files left : Files} {directory : Place}

/-! ### Settings in memory -/

/-- Changes that give no option in common. -/
structure Independent (first second : SettingsChanges) : Prop where
  hue : first.hue = none ∨ second.hue = none
  ratio : first.ratio = none ∨ second.ratio = none
  baseSize : first.baseSize = none ∨ second.baseSize = none
  level : first.level = none ∨ second.level = none

theorem Independent.symm (h : first.Independent second) : second.Independent first :=
  ⟨h.hue.symm, h.ratio.symm, h.baseSize.symm, h.level.symm⟩

/-- The change that gives the options of both, those of the first if they have one in common. -/
def merge (first second : SettingsChanges) : SettingsChanges where
  hue := first.hue.or second.hue
  ratio := first.ratio.or second.ratio
  baseSize := first.baseSize.or second.baseSize
  level := first.level.or second.level

section Options

variable {α : Type} {a b : Option α}

theorem or_comm_of_none (h : a = none ∨ b = none) : a.or b = b.or a := by
  rcases h with rfl | rfl <;> simp

theorem getD_or_of_none (h : a = none ∨ b = none) (default : α) :
    (a.or b).getD default = b.getD (a.getD default) := by
  rcases h with rfl | rfl <;> simp

end Options

theorem merge_comm (h : first.Independent second) : first.merge second = second.merge first := by
  unfold merge
  rw [or_comm_of_none h.hue, or_comm_of_none h.ratio, or_comm_of_none h.baseSize,
    or_comm_of_none h.level]

/-- Both changes at once are one after the other. -/
theorem apply_merge (h : first.Independent second) (settings : Settings) :
    (first.merge second).apply settings = second.apply (first.apply settings) := by
  have hhue :
      first.hue.map (Number.wrap · 360.0) = none ∨ second.hue.map (Number.wrap · 360.0) = none := by
    simpa only [Option.map_eq_none_iff] using h.hue
  simp only [apply, merge, Option.map_or, getD_or_of_none hhue, getD_or_of_none h.ratio,
    getD_or_of_none h.baseSize, getD_or_of_none h.level]

theorem isEmpty_merge (h : first.isEmpty = false) : (first.merge second).isEmpty = false := by
  simp only [isEmpty, merge, Bool.and_eq_false_iff, Option.isNone_eq_false_iff, Option.isSome_or,
    Bool.or_eq_true] at h ⊢
  tauto

theorem hasBadHue_merge (hfirst : first.hasBadHue = false) (hsecond : second.hasBadHue = false) :
    (first.merge second).hasBadHue = false := by
  unfold hasBadHue merge
  cases hhue : first.hue with
  | none => exact hsecond
  | some hue =>
    rw [hasBadHue, hhue] at hfirst
    exact hfirst

/-! ### Files -/

/-- A change that succeeds and leads from one tree of files to another. -/
def Makes (changes : SettingsChanges) (directory : Place) (files left : Files) : Prop :=
  ∃ outcome, Command.run (.changeSettings changes) files directory = (outcome, left) ∧
    outcome.failure = none

/-- A change succeeds where it is permitted and the directory takes the file, and then nothing but
the settings is changed. -/
theorem makes_iff :
    changes.Makes directory files left ↔
      ∃ before made, changes.Permitted files directory before ∧
        files.makeDirectory directory.location = (.ok (), made) ∧
        Store.Accepts made directory ∧ left = Store.kept made directory (changes.apply before) := by
  constructor
  · rintro ⟨outcome, hrun, hsuccess⟩
    change changes.run files directory = (outcome, left) at hrun
    rcases run_cases changes files directory {} with
      ⟨failure, hcase, -, -⟩
      | ⟨before, hpermitted, ⟨fault, left', -, hcase⟩ | ⟨output, saved, hsave, hcase⟩⟩
    all_goals
      rw [hcase, Prod.mk.injEq] at hrun
      obtain ⟨rfl, rfl⟩ := hrun
    · cases hsuccess
    · cases hsuccess
    · obtain ⟨-, made, hmade, haccepts, hkept⟩ := Store.saveIn_eq_ok_iff.mp hsave
      exact ⟨before, made, hpermitted, hmade, haccepts, hkept⟩
  · rintro ⟨before, made, hpermitted, hmade, haccepts, rfl⟩
    have hsave := Store.saveIn_eq_ok_iff.mpr ⟨hpermitted.check, made, hmade, haccepts, rfl⟩
    rcases run_cases changes files directory {} with
      ⟨-, -, -, hrefused⟩
      | ⟨before', hpermitted', ⟨fault, left', hfault, -⟩ | ⟨output, saved, hsaved, hcase⟩⟩
    · exact absurd hpermitted (hrefused before)
    -- the settings of before are those that are loaded, and there is one load
    all_goals obtain rfl := Except.ok.inj (hpermitted.load.symm.trans hpermitted'.load)
    · rw [hsave] at hfault
      cases hfault
    · rw [hsave, Prod.mk.injEq] at hsaved
      obtain ⟨-, rfl⟩ := hsaved
      exact ⟨_, hcase, rfl⟩

/-- A change on top of another loads what the other one made, so that together they put both changes
in the tree that the first one started from. -/
theorem Makes.second_on_first {between : Files} (hfirst : first.Makes directory files between)
    (hsecond : second.Makes directory between left) :
    ∃ before made, first.Permitted files directory before ∧
      files.makeDirectory directory.location = (.ok (), made) ∧
      Store.Accepts made directory ∧ second.Permitted between directory (first.apply before) ∧
      left = Store.kept made directory (second.apply (first.apply before)) := by
  obtain ⟨before, made, hpermitted, hmade, haccepts, rfl⟩ := makes_iff.mp hfirst
  obtain ⟨loaded, again, hpermitted', hagain, -, rfl⟩ := makes_iff.mp hsecond
  have hsteps := stepsFit_apply first (Store.stepsFit_of_load hpermitted.load)
  have hload := Store.load_kept made directory hsteps hpermitted.check
  obtain rfl := Except.ok.inj (hload.symm.trans hpermitted'.load)
  obtain rfl := (Prod.mk.inj ((Store.makeDirectory_kept hmade _).symm.trans hagain)).2
  exact ⟨before, made, hpermitted, hmade, haccepts, hpermitted', Store.kept_kept ..⟩

/-- On top of a change another one can be made if it can be made to the new settings. -/
theorem Makes.exists_next {between : Files} {before : Settings}
    (hfirst : first.Makes directory files between) (hload : Store.load files directory = .ok before)
    (second : SettingsChanges) (hgiven : second.isEmpty = false) (hhue : second.hasBadHue = false)
    (hcheck : (second.apply (first.apply before)).check = .ok ()) :
    ∃ left, second.Makes directory between left := by
  obtain ⟨before', made, hpermitted, hmade, haccepts, rfl⟩ := makes_iff.mp hfirst
  obtain rfl := Except.ok.inj (hload.symm.trans hpermitted.load)
  have hsteps := stepsFit_apply first (Store.stepsFit_of_load hload)
  have hnext := Store.load_kept made directory hsteps hpermitted.check
  exact ⟨_, makes_iff.mpr
    ⟨first.apply before, _, ⟨hgiven, hhue, hnext, hcheck⟩, Store.makeDirectory_kept hmade _,
    haccepts.kept _, rfl⟩⟩

/-- Two changes that give no option in common leave the same tree in either order, with the same
bytes in the settings file.  The change that gives the options of both succeeds too, and leaves that
tree. -/
theorem independent_changes_commute {afterFirst afterSecond one other : Files}
    (h : first.Independent second) (hfirst : first.Makes directory files afterFirst)
    (hone : second.Makes directory afterFirst one)
    (hsecond : second.Makes directory files afterSecond)
    (hother : first.Makes directory afterSecond other) :
    one = other ∧
      (∃ bytes, one.entry (Store.settingsFile directory).location = some (.file bytes)) ∧
      (first.merge second).Makes directory files one ∧
      ∃ before, Store.load files directory = .ok before ∧
        Store.load one directory = .ok ((first.merge second).apply before) := by
  obtain ⟨before, made, hpermitted, hmade, haccepts, hpermitted₂, rfl⟩ :=
    hfirst.second_on_first hone
  obtain ⟨before', made', hpermitted', hmade', -, hpermitted₂', rfl⟩ :=
    hsecond.second_on_first hother
  obtain rfl := Except.ok.inj (hpermitted.load.symm.trans hpermitted'.load)
  obtain rfl := (Prod.mk.inj (hmade.symm.trans hmade')).2
  have hmerged : (first.merge second).Permitted files directory before :=
    ⟨isEmpty_merge hpermitted.given, hasBadHue_merge hpermitted.hue hpermitted'.hue,
      hpermitted.load, apply_merge h before ▸ hpermitted₂.check⟩
  have hother : first.apply (second.apply before) = (first.merge second).apply before := by
    rw [merge_comm h, apply_merge h.symm]
  rw [hother, ← apply_merge h]
  have hsteps := stepsFit_apply (first.merge second) (Store.stepsFit_of_load hpermitted.load)
  exact ⟨rfl, ⟨_, Store.entry_kept ..⟩,
    makes_iff.mpr ⟨before, made, hmerged, hmade, haccepts, rfl⟩, before, hpermitted.load,
    Store.load_kept made directory hsteps hmerged.check⟩

/-- A change of the size of the base step. -/
def enlarged : SettingsChanges := { baseSize := some 20.1 }

/-- A change of the ratio and the level. -/
def relaxed : SettingsChanges := { ratio := some (.custom 1.5), level := some .aa }

/-- Changes of unusual settings, with the hue NaN, commute. -/
theorem independent_changes_commute_unusual :
    ∃ files afterFirst afterSecond one other,
      Store.load files ⟨"", []⟩ = .ok Store.unusual ∧ enlarged.Independent relaxed ∧
      enlarged.Makes ⟨"", []⟩ files afterFirst ∧ relaxed.Makes ⟨"", []⟩ afterFirst one ∧
      relaxed.Makes ⟨"", []⟩ files afterSecond ∧ enlarged.Makes ⟨"", []⟩ afterSecond other ∧
      one = other ∧ (enlarged.merge relaxed).Makes ⟨"", []⟩ files one := by
  have hload : Store.load (Store.kept .empty ⟨"", []⟩ Store.unusual) ⟨"", []⟩ = .ok Store.unusual :=
    Store.load_kept .empty ⟨"", []⟩ (by decide) (by decide)
  have hindependent : enlarged.Independent relaxed := ⟨.inl rfl, .inl rfl, .inr rfl, .inl rfl⟩
  have haccepts : Store.Accepts (Store.kept .empty ⟨"", []⟩ Store.unusual) ⟨"", []⟩ :=
    ⟨rfl, nofun, nofun, rfl, rfl⟩
  have hfirst := makes_iff.mpr
    ⟨_, _, (⟨by decide, by decide, hload, by decide⟩ : enlarged.Permitted _ _ _), rfl,
      haccepts, rfl⟩
  have hsecond := makes_iff.mpr
    ⟨_, _, (⟨by decide, by decide, hload, by decide⟩ : relaxed.Permitted _ _ _), rfl, haccepts, rfl⟩
  obtain ⟨one, hone⟩ := hfirst.exists_next hload relaxed (by decide) (by decide) (by decide)
  obtain ⟨other, hother⟩ := hsecond.exists_next hload enlarged (by decide) (by decide) (by decide)
  obtain ⟨hsame, -, hmerged, -⟩ :=
    independent_changes_commute hindependent hfirst hone hsecond hother
  exact ⟨_, _, _, one, other, hload, hindependent, hfirst, hone, hsecond, hother, hsame, hmerged⟩

end DesignTokens.SettingsChanges

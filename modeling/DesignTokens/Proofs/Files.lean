import DesignTokens.Files
import Mathlib.Order.Bounds.Basic

/-!
# What operations on files change

An operation that succeeds changes the tree at locations that it names (`write_eq_ok_iff`,
`rename_eq_ok_iff`).  One that is refused, by the tree or by the disk, keeps every other location as
it was: a write may leave anything at its own location but nothing elsewhere (`entry_write_of_ne`),
a rename leaves all as it was (`files_of_rename_error`), and making a directory keeps all that lies
deeper (`entry_makeDirectory_of_lt`) and all that stood there before
(`entry_makeDirectory_of_some`).  Whether a location can be reached depends on its ancestors alone
(`obstacle?_set_of_length_le`).
-/

namespace DesignTokens.Files

variable {files : Files} {location other : Location} {disk : Disk}

/-! ### Entries -/

@[simp]
theorem entry_set_self (files : Files) (location : Location) (entry : Option Entry) :
    (files.set location entry).entry location = entry := by
  simp [set]

theorem entry_set_of_ne (files : Files) (h : other ≠ location) (entry : Option Entry) :
    (files.set location entry).entry other = files.entry other := by
  simp [set, h]

/-- The last change at a place counts. -/
@[simp]
theorem set_set_self (files : Files) (location : Location) (first last : Option Entry) :
    (files.set location first).set location last = files.set location last := by
  simp only [set, Files.mk.injEq]
  funext place
  split <;> rfl

/-- Changes at different places can be made in either order. -/
theorem set_comm (files : Files) (h : location ≠ other) (entry entry' : Option Entry) :
    (files.set location entry).set other entry' = (files.set other entry').set location entry := by
  simp only [set, Files.mk.injEq]
  funext place
  by_cases hplace : place = location
  · simp [hplace, h]
  · simp [hplace]

/-! ### Places above a place -/

theorem length_lt_of_mem_ancestors (h : other ∈ ancestors location) :
    other.length < location.length := by
  obtain ⟨n, hn, rfl⟩ := List.mem_map.mp h
  rw [List.length_take]
  have := List.mem_range.mp hn
  omega

/-- A change is no obstacle on the way to places that do not lie deeper. -/
theorem obstacle?_set_of_length_le (files : Files) (h : other.length ≤ location.length)
    (entry : Option Entry) :
    (files.set location entry).obstacle? other = files.obstacle? other := by
  have hentry :
      ∀ above ∈ ancestors other, (files.set location entry).entry above = files.entry above := by
    intro above habove
    refine entry_set_of_ne files ?_ entry
    rintro rfl
    exact absurd (length_lt_of_mem_ancestors habove) (not_lt.mpr h)
  unfold obstacle?
  generalize ancestors other = places at hentry
  induction places with
  | nil => rfl
  | cons above places ih =>
    rw [List.findSome?_cons, List.findSome?_cons, hentry above (List.mem_cons_self ..),
      ih fun place hplace => hentry place (List.mem_cons_of_mem _ hplace)]

/-! ### Files -/

/-- A write succeeds exactly if neither the disk nor the tree refuses it. -/
theorem write_eq_ok_iff {content : ByteArray} {written : Files} :
    files.write location content disk = (.ok (), written) ↔
      disk.write = none ∧ files.obstacle? location = none ∧ files.entry location ≠ some .directory ∧
        written = files.set location (some (.file content)) := by
  unfold write
  cases hdisk : disk.write with
  | some refusal => simp
  | none =>
    cases hobstacle : files.obstacle? location with
    | some cause => simp
    | none =>
      dsimp only
      split
      case h_1 hentry => simp [hentry]
      case h_2 hentry =>
        have hne : files.entry location ≠ some .directory := fun h => hentry h
        simp [hne, eq_comm]

/-- A write changes nothing elsewhere, whether it is refused or not. -/
theorem entry_write_of_ne (files : Files) (h : other ≠ location) (content : ByteArray)
    (disk : Disk) : (files.write location content disk).2.entry other = files.entry other := by
  unfold write
  split
  · exact entry_set_of_ne files h _
  · split
    · rfl
    · split
      · rfl
      · exact entry_set_of_ne files h _

/-- A file is moved exactly if the disk does not refuse it and there is no directory in its
place. -/
theorem rename_eq_ok_iff {target : Location} {content : ByteArray} {moved : Files}
    (hsource : files.entry location = some (.file content)) :
    files.rename location target disk = (.ok (), moved) ↔
      disk.rename = none ∧ files.entry target ≠ some .directory ∧
        moved = (files.set location none).set target (some (.file content)) := by
  unfold rename
  cases hdisk : disk.rename with
  | some cause => simp
  | none =>
    rw [hsource]
    cases htarget : files.entry target with
    | none => simp [eq_comm]
    | some entry => cases entry <;> simp [eq_comm]

/-- A rename that is refused has changed nothing. -/
theorem files_of_rename_error {target : Location} {cause : FileCause} {left : Files}
    (h : files.rename location target disk = (.error cause, left)) : left = files := by
  unfold rename at h
  split at h
  · exact (Prod.mk.inj h).2.symm
  · split at h
    · exact (Prod.mk.inj h).2.symm
    · exact (Prod.mk.inj h).2.symm
    · exact (Prod.mk.inj h).2.symm
    · exact absurd (Prod.mk.inj h).1 nofun

/-! ### Directories -/

theorem entry_addDirectory_of_ne (files : Files) (h : other ≠ location) :
    (files.addDirectory location).entry other = files.entry other := by
  unfold addDirectory
  split
  · rfl
  · exact entry_set_of_ne files h _

/-- A directory is only added where nothing stands. -/
theorem entry_addDirectory_of_some {entry : Entry} (h : files.entry other = some entry) :
    (files.addDirectory location).entry other = some entry := by
  unfold addDirectory
  split
  case isTrue => exact h
  case isFalse hfree =>
    rw [entry_set_of_ne _ ?_, h]
    rintro rfl
    simp [holds, h] at hfree

theorem entry_addDirectory_self (h : ∀ content, files.entry location ≠ some (.file content)) :
    (files.addDirectory location).entry location = some .directory := by
  unfold addDirectory holds
  cases hentry : files.entry location with
  | none => simp
  | some entry =>
    cases entry with
    | file content => exact absurd hentry (h content)
    | directory => simpa using hentry

theorem entry_foldl_addDirectory_of_notMem {places : List Location} (h : other ∉ places)
    (files : Files) : (places.foldl addDirectory files).entry other = files.entry other := by
  induction places generalizing files with
  | nil => rfl
  | cons place places ih =>
    rw [List.mem_cons, not_or] at h
    rw [List.foldl_cons, ih h.2, entry_addDirectory_of_ne files h.1]

theorem entry_foldl_addDirectory_of_some {entry : Entry} (h : files.entry other = some entry)
    (places : List Location) : (places.foldl addDirectory files).entry other = some entry := by
  induction places generalizing files with
  | nil => exact h
  | cons place places ih => exact ih (entry_addDirectory_of_some h)

theorem length_le_of_mem_places (h : other ∈ ancestors location ++ [location]) :
    other.length ≤ location.length := by
  rcases List.mem_append.mp h with h | h
  · exact (length_lt_of_mem_ancestors h).le
  · rw [List.mem_singleton.mp h]

/-- Making a directory changes nothing that lies deeper, whether it is refused or not. -/
theorem entry_makeDirectory_of_lt (files : Files) (disk : Disk)
    (h : location.length < other.length) :
    (files.makeDirectory location disk).2.entry other = files.entry other := by
  have hother : other ∉ ancestors location ++ [location] := fun hmem =>
    absurd (length_le_of_mem_places hmem) (not_le.mpr h)
  unfold makeDirectory
  dsimp only
  split
  · exact entry_foldl_addDirectory_of_notMem (fun hmem => hother (List.mem_of_mem_take hmem)) files
  · split_ifs
    · rfl
    · rfl
    · exact entry_foldl_addDirectory_of_notMem hother files

/-- Making a directory keeps all that stands anywhere, whether it is refused or not. -/
theorem entry_makeDirectory_of_some {entry : Entry} (h : files.entry other = some entry)
    (location : Location) (disk : Disk) :
    (files.makeDirectory location disk).2.entry other = some entry := by
  unfold makeDirectory
  dsimp only
  split
  · exact entry_foldl_addDirectory_of_some h _
  · split_ifs
    · exact h
    · exact h
    · exact entry_foldl_addDirectory_of_some h _

theorem entry_foldl_addDirectory_of_mem {places : List Location} (h : other ∈ places)
    (hfile : ∀ content, files.entry other ≠ some (.file content)) :
    (places.foldl addDirectory files).entry other = some .directory := by
  induction places generalizing files with
  | nil => cases h
  | cons place places ih =>
    by_cases hplace : other = place
    · subst hplace
      exact entry_foldl_addDirectory_of_some (entry_addDirectory_self hfile) places
    · refine ih ((List.mem_cons.mp h).resolve_left hplace) ?_
      rwa [entry_addDirectory_of_ne files hplace]

/-- A directory that was made is there, and so are those above it. -/
theorem entry_made {made : Files} (h : files.makeDirectory location disk = (.ok (), made))
    (hplace : other ∈ ancestors location ++ [location]) : made.entry other = some .directory := by
  unfold makeDirectory at h
  dsimp only at h
  split at h
  case h_1 => exact absurd (Prod.mk.inj h).1 nofun
  case h_2 =>
    split_ifs at h with habove hhere
    · exact absurd (Prod.mk.inj h).1 nofun
    · exact absurd (Prod.mk.inj h).1 nofun
    rw [← (Prod.mk.inj h).2]
    refine entry_foldl_addDirectory_of_mem hplace fun content hfile => ?_
    rcases List.mem_append.mp hplace with hmem | hmem
    · exact habove (List.any_eq_true.mpr ⟨other, hmem, by rw [hfile]⟩)
    · rw [List.mem_singleton.mp hmem] at hfile
      exact hhere (by rw [hfile])

/-- Making a directory that is there changes nothing. -/
theorem makeDirectory_eq_self
    (h : ∀ place ∈ ancestors location ++ [location], files.entry place = some .directory) :
    files.makeDirectory location = (.ok (), files) := by
  have hsame : (ancestors location ++ [location]).foldl addDirectory files = files := by
    generalize ancestors location ++ [location] = places at h
    induction places with
    | nil => rfl
    | cons place places ih =>
      have hplace : files.addDirectory place = files := by
        simp [addDirectory, holds, h place List.mem_cons_self]
      rw [List.foldl_cons, hplace]
      exact ih fun other hother => h other (List.mem_cons_of_mem place hother)
  unfold makeDirectory
  dsimp only
  split_ifs with habove hhere
  · obtain ⟨above, hmem, hfile⟩ := List.any_eq_true.mp habove
    rw [h above (List.mem_append_left _ hmem)] at hfile
    cases hfile
  · rw [h location (List.mem_append_right _ (List.mem_singleton_self location))] at hhere
    cases hhere
  · rw [hsame]

end DesignTokens.Files

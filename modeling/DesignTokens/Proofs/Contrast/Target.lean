import DesignTokens.Proofs.Contrast.Suggestion
import DesignTokens.Proofs.Number.Order
import Mathlib.Order.Interval.Set.UnorderedInterval

/-!
# Easier targets

On the way to a harder target the contrast may fall before it rises, where the walk passes the
luminance of the background.  Still an easier target is found no later (`FoundAt.exists_le`): what
reaches the harder one reaches the easier one as well.  All channels go one way until they stop at
their bound, so that a colour that is found earlier lies between the foreground and the one that is
found later (`isBetween_candidate`).
-/

namespace DesignTokens

open Number

/-- Each channel of a colour lies between those of two others, whichever of the two is the
greater. -/
structure Rgb.IsBetween (first last color : Rgb) : Prop where
  r : color.r.toNat ∈ Set.uIcc first.r.toNat last.r.toNat
  g : color.g.toNat ∈ Set.uIcc first.g.toNat last.g.toNat
  b : color.b.toNat ∈ Set.uIcc first.b.toNat last.b.toNat

namespace Suggestion

/-! ### Channels along a walk -/

/-- On its way to a bound a channel passes all that lies between. -/
theorem moved_mem_uIcc (direction : Direction) {m n : ℕ} (h : m ≤ n) (channel : UInt8) :
    direction.moved m channel.toNat ∈ Set.uIcc channel.toNat (direction.moved n channel.toNat) := by
  have hchannel : channel.toNat < 256 := channel.toNat_lt
  rw [Set.mem_uIcc]
  cases direction with
  | darker =>
    right
    show channel.toNat - n ≤ channel.toNat - m ∧ channel.toNat - m ≤ channel.toNat
    omega
  | lighter =>
    left
    show channel.toNat ≤ min 255 (channel.toNat + m) ∧
      min 255 (channel.toNat + m) ≤ min 255 (channel.toNat + n)
    omega

theorem isBetween_candidate (foreground : Rgb) (direction : Direction) {i j : ℕ} (h : i ≤ j) :
    Rgb.IsBetween foreground (candidate foreground direction j)
      (candidate foreground direction i) := by
  have hamount : stepAmount * i ≤ stepAmount * j := Nat.mul_le_mul_left stepAmount h
  obtain ⟨hr, hg, hb⟩ := toNat_move direction (stepAmount * i) foreground
  obtain ⟨hr', hg', hb'⟩ := toNat_move direction (stepAmount * j) foreground
  unfold candidate
  refine ⟨?_, ?_, ?_⟩
  · rw [hr, hr']
    exact moved_mem_uIcc direction hamount foreground.r
  · rw [hg, hg']
    exact moved_mem_uIcc direction hamount foreground.g
  · rw [hb, hb']
    exact moved_mem_uIcc direction hamount foreground.b

/-! ### Two targets -/

/-- A search finds the colour after `k` steps, and no step before reaches its target. -/
def FoundAt (foreground background : Rgb) (target : Float) (direction : Direction) (k : ℕ) : Prop :=
  search foreground background target direction =
    some (afterSteps foreground background direction k) ∧
    IsLeast (Reaching foreground background target direction) k

section Targets

variable {foreground background : Rgb} {easier harder target : Float} {direction : Direction}

theorem foundAt_iff {k : ℕ} :
    FoundAt foreground background target direction k ↔
      IsLeast (Reaching foreground background target direction) k := by
  refine ⟨And.right, fun hleast => ⟨?_, hleast⟩⟩
  exact search_eq_some_iff.mpr ⟨k, hleast, rfl⟩

theorem exists_foundAt_iff {s : Suggestion} :
    search foreground background target direction = some s ↔
      ∃ k, FoundAt foreground background target direction k ∧
        s = afterSteps foreground background direction k := by
  simp only [foundAt_iff, search_eq_some_iff]

/-- What reaches the harder target reaches the easier one. -/
theorem reaching_anti (h : easier ≤ harder) (foreground background : Rgb) (direction : Direction) :
    Reaching foreground background harder direction ⊆
      Reaching foreground background easier direction := by
  rintro i ⟨hi, hi', hreach⟩
  exact ⟨hi, hi', le_of_le_of_le h hreach⟩

/-- An easier target is found no later. -/
theorem FoundAt.exists_le {k : ℕ} (hfound : FoundAt foreground background harder direction k)
    (h : easier ≤ harder) : ∃ j ≤ k, FoundAt foreground background easier direction j := by
  have hreach := reaching_anti h foreground background direction hfound.2.1
  obtain ⟨s, hs⟩ := Option.isSome_iff_exists.mp (isSome_search_iff.mpr ⟨k, hreach⟩)
  obtain ⟨j, hj, -⟩ := exists_foundAt_iff.mp hs
  exact ⟨j, hj.2.2 hreach, hj⟩

theorem mem_suggest_iff {s : Suggestion} :
    s ∈ suggest foreground background target ↔
      search foreground background target s.direction = some s := by
  unfold suggest
  rw [List.mem_filterMap]
  constructor
  · rintro ⟨direction, -, hsearch⟩
    obtain ⟨k, -, rfl⟩ := search_eq_some_iff.mp hsearch
    exact hsearch
  · intro hsearch
    refine ⟨s.direction, ?_, hsearch⟩
    cases s.direction <;> decide

theorem FoundAt.mem_suggest {k : ℕ} (hfound : FoundAt foreground background target direction k) :
    afterSteps foreground background direction k ∈ suggest foreground background target := by
  rw [mem_suggest_iff]
  exact hfound.1

end Targets

/-- The easier the target, the earlier it is found: if a search finds the colour after so many
steps, then one for an easier target finds that after as many steps or fewer.  So wherever there is
a suggestion for the harder target there is one for the easier target in the same direction, and its
channels lie between those of the foreground and those of the other suggestion. -/
theorem easier_target_is_found_earlier (foreground background : Rgb) {easier harder : Float}
    (h : easier ≤ harder) :
    (∀ direction k, FoundAt foreground background harder direction k →
      ∃ j ≤ k, FoundAt foreground background easier direction j) ∧
    ∀ s ∈ suggest foreground background harder,
      (∃ s' ∈ suggest foreground background easier, s'.direction = s.direction) ∧
      ∀ s' ∈ suggest foreground background easier, s'.direction = s.direction →
        Rgb.IsBetween foreground s.color s'.color := by
  refine ⟨fun direction k hfound => hfound.exists_le h, ?_⟩
  intro s hs
  obtain ⟨k, hk, hsk⟩ := exists_foundAt_iff.mp (mem_suggest_iff.mp hs)
  obtain ⟨j, hjk, hj⟩ := hk.exists_le h
  constructor
  · exact ⟨_, hj.mem_suggest, rfl⟩
  · intro s' hs' hdirection
    rw [mem_suggest_iff, hdirection, hj.1] at hs'
    rw [← Option.some.inj hs', hsk]
    exact isBetween_candidate foreground s.direction hjk

/-- A grey that is darkened past its background loses contrast at first.  The first step is enough
for an easy target, the second alone would not be, and a hard target takes three. -/
theorem easier_target_is_found_earlier_crossing :
    (1.1 : Float) ≤ 1.2 ∧
    ¬1.1 ≤ Contrast.ratio (candidate ⟨153, 153, 153⟩ .darker 2) ⟨125, 125, 125⟩ ∧
    (FoundAt ⟨153, 153, 153⟩ ⟨125, 125, 125⟩ 1.2 .darker 3 ∧
      ∃ j ≤ 3, FoundAt ⟨153, 153, 153⟩ ⟨125, 125, 125⟩ 1.1 .darker j) ∧
    afterSteps ⟨153, 153, 153⟩ ⟨125, 125, 125⟩ .darker 3 ∈
      suggest ⟨153, 153, 153⟩ ⟨125, 125, 125⟩ 1.2 ∧
    afterSteps ⟨153, 153, 153⟩ ⟨125, 125, 125⟩ .darker 1 ∈
      suggest ⟨153, 153, 153⟩ ⟨125, 125, 125⟩ 1.1 ∧
    Rgb.IsBetween ⟨153, 153, 153⟩ ⟨108, 108, 108⟩ ⟨138, 138, 138⟩ := by
  have htargets : (1.1 : Float) ≤ 1.2 := by decide
  obtain ⟨hsteps, hsuggestions⟩ :=
    easier_target_is_found_earlier ⟨153, 153, 153⟩ ⟨125, 125, 125⟩ htargets
  have hfirst : 1.1 ≤ Contrast.ratio (candidate ⟨153, 153, 153⟩ .darker 1) ⟨125, 125, 125⟩ ∧
      ¬1.2 ≤ Contrast.ratio (candidate ⟨153, 153, 153⟩ .darker 1) ⟨125, 125, 125⟩ := by
    decide +kernel
  have hsecond : ¬1.1 ≤ Contrast.ratio (candidate ⟨153, 153, 153⟩ .darker 2) ⟨125, 125, 125⟩ := by
    decide +kernel
  have hthird : 1.2 ≤ Contrast.ratio (candidate ⟨153, 153, 153⟩ .darker 3) ⟨125, 125, 125⟩ := by
    decide +kernel
  have hhard : FoundAt ⟨153, 153, 153⟩ ⟨125, 125, 125⟩ 1.2 .darker 3 := by
    refine foundAt_iff.mpr ⟨⟨by norm_num, by norm_num, hthird⟩, ?_⟩
    rintro i ⟨hi, -, hreach⟩
    by_contra hlt
    obtain rfl | rfl : i = 1 ∨ i = 2 := by omega
    · exact hfirst.2 hreach
    · exact hsecond (le_of_le_of_le htargets hreach)
  have heasy : FoundAt ⟨153, 153, 153⟩ ⟨125, 125, 125⟩ 1.1 .darker 1 :=
    foundAt_iff.mpr ⟨⟨le_rfl, by norm_num, hfirst.1⟩, fun i hi => hi.1⟩
  exact ⟨htargets, hsecond, ⟨hhard, hsteps .darker 3 hhard⟩, hhard.mem_suggest, heasy.mem_suggest,
    (hsuggestions _ hhard.mem_suggest).2 _ heasy.mem_suggest rfl⟩

end Suggestion

end DesignTokens

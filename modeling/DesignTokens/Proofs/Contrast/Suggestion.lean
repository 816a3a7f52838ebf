import DesignTokens.Contrast.Suggestion
import Mathlib.Order.Bounds.Basic
import Mathlib.Tactic.Push

/-!
# The nearest accessible alternative

`Suggestion.search` finds the least number of steps in a direction that reaches the target, and
finds nothing only if none of the steps does.  The target may be any double; no step reaches NaN.
-/

namespace DesignTokens

/-- A channel moved by an amount, clamped to `[0, 255]`. -/
def Direction.moved : Direction → (amount channel : ℕ) → ℕ
  | darker, amount, channel => channel - amount
  | lighter, amount, channel => min 255 (channel + amount)

namespace Suggestion

/-! ### Candidates -/

theorem toNat_move (direction : Direction) (amount : ℕ) (color : Rgb) :
    (direction.move amount color).r.toNat = direction.moved amount color.r.toNat ∧
      (direction.move amount color).g.toNat = direction.moved amount color.g.toNat ∧
      (direction.move amount color).b.toNat = direction.moved amount color.b.toNat := by
  have hlow : ∀ c : UInt8, (UInt8.ofNat (c.toNat - amount)).toNat = c.toNat - amount := by
    intro c
    have hc : c.toNat < 256 := c.toNat_lt
    exact UInt8.toNat_ofNat_of_lt' (show c.toNat - amount < 256 by omega)
  have hhigh :
      ∀ c : UInt8, (UInt8.ofNat (min 255 (c.toNat + amount))).toNat = min 255 (c.toNat + amount) :=
    fun c => UInt8.toNat_ofNat_of_lt' (show min 255 (c.toNat + amount) < 256 by omega)
  cases direction with
  | darker => exact ⟨hlow _, hlow _, hlow _⟩
  | lighter => exact ⟨hhigh _, hhigh _, hhigh _⟩

/-! ### The search -/

/-- The steps at which a foreground moved in a direction reaches the target. -/
def Reaching (foreground background : Rgb) (target : Float) (direction : Direction) : Set ℕ :=
  {i | 1 ≤ i ∧ i ≤ 10 ∧ target ≤ Contrast.ratio (candidate foreground direction i) background}

/-- What is suggested after `i` steps. -/
def afterSteps (foreground background : Rgb) (direction : Direction) (i : ℕ) : Suggestion where
  color := candidate foreground direction i
  ratio := Contrast.ratio (candidate foreground direction i) background
  direction := direction

section Search

variable {foreground background : Rgb} {target : Float} {direction : Direction}

theorem atStep?_eq_some_iff {i : ℕ} {s : Suggestion} :
    atStep? foreground background target direction i = some s ↔
      target ≤ Contrast.ratio (candidate foreground direction i) background ∧
        s = afterSteps foreground background direction i := by
  unfold atStep? afterSteps
  dsimp only
  split
  case isTrue h => simp [h, eq_comm]
  case isFalse h => simp [h]

theorem atStep?_eq_none_iff {i : ℕ} :
    atStep? foreground background target direction i = none ↔
      ¬target ≤ Contrast.ratio (candidate foreground direction i) background := by
  simp [atStep?]

/-- The search ends at the first of the steps that gives a result. -/
theorem findSome?_range_eq_some_iff {α : Type} {f : ℕ → Option α} {n : ℕ} {b : α} :
    (List.range n).findSome? f = some b ↔ ∃ k < n, f k = some b ∧ ∀ j < k, f j = none := by
  induction n with
  | zero => simp
  | succ n ih =>
    rw [List.range_succ, List.findSome?_append, Option.or_eq_some_iff, ih,
      List.findSome?_eq_none_iff]
    constructor
    · rintro (⟨k, hk, hb, hj⟩ | ⟨hnone, hlast⟩)
      · exact ⟨k, hk.trans n.lt_succ_self, hb, hj⟩
      · refine ⟨n, n.lt_succ_self, by simpa using hlast,
          fun j hj => hnone j (List.mem_range.mpr hj)⟩
    · rintro ⟨k, hk, hb, hj⟩
      rcases Nat.lt_succ_iff_lt_or_eq.mp hk with hlt | rfl
      · exact Or.inl ⟨k, hlt, hb, hj⟩
      · exact Or.inr ⟨fun j hmem => hj j (List.mem_range.mp hmem), by simpa using hb⟩

/-- A suggestion is found at the least step that reaches the target. -/
theorem search_eq_some_iff {s : Suggestion} :
    search foreground background target direction = some s ↔
      ∃ k, IsLeast (Reaching foreground background target direction) k ∧
        s = afterSteps foreground background direction k := by
  unfold search maxSteps
  rw [findSome?_range_eq_some_iff]
  simp only [atStep?_eq_some_iff, atStep?_eq_none_iff]
  -- the search counts its steps from zero, and a colour is moved once more
  constructor
  · rintro ⟨k, hk, ⟨hreach, hs⟩, hbefore⟩
    refine ⟨k + 1, ⟨⟨by omega, by omega, hreach⟩, ?_⟩, hs⟩
    rintro i ⟨hi, -, hreach'⟩
    by_contra hlt
    refine hbefore (i - 1) (by omega) ?_
    rwa [Nat.sub_add_cancel hi]
  · rintro ⟨k, ⟨⟨hk, hk', hreach⟩, hleast⟩, hs⟩
    refine ⟨k - 1, by omega, ?_, ?_⟩
    · rw [Nat.sub_add_cancel hk]
      exact ⟨hreach, hs⟩
    · intro j hj hreach'
      have := hleast ⟨by omega, by omega, hreach'⟩
      omega

/-- Something is found exactly if some step reaches the target. -/
theorem isSome_search_iff :
    (search foreground background target direction).isSome = true ↔
      (Reaching foreground background target direction).Nonempty := by
  rw [← Option.not_isNone, Bool.not_eq_true', ← Bool.not_eq_true, Option.isNone_iff_eq_none]
  unfold search maxSteps
  rw [List.findSome?_eq_none_iff]
  simp only [atStep?_eq_none_iff, List.mem_range]
  constructor
  · intro h
    push Not at h
    obtain ⟨k, hk, hreach⟩ := h
    exact ⟨k + 1, by omega, by omega, hreach⟩
  · rintro ⟨i, hi, hi', hreach⟩ h
    refine h (i - 1) (by omega) ?_
    rwa [Nat.sub_add_cancel hi]

/-- The suggestions are what the searches toward black and toward white find, in this order. -/
theorem suggest_eq :
    suggest foreground background target =
      (search foreground background target .darker).toList ++
        (search foreground background target .lighter).toList := by
  unfold suggest Direction.all
  cases hd : search foreground background target .darker <;>
    cases hl : search foreground background target .lighter <;> simp [hd, hl]

/-- Every suggestion reaches the target, and carries the contrast of its colour. -/
theorem reaches_of_mem_suggest {s : Suggestion} (hs : s ∈ suggest foreground background target) :
    s.ratio = Contrast.ratio s.color background ∧ target ≤ s.ratio := by
  obtain ⟨direction, -, hsearch⟩ := List.mem_filterMap.mp hs
  obtain ⟨k, hleast, rfl⟩ := search_eq_some_iff.mp hsearch
  exact ⟨rfl, hleast.1.2.2⟩

end Search

/-- The search for an alternative succeeds exactly if one of ten steps of fifteen reaches the
target.  It then gives the colour of the least such step with its own contrast; both searches
together are the suggestions. -/
theorem search_finds_least (foreground background : Rgb) (target : Float) :
    (∀ direction,
      ((search foreground background target direction).isSome = true ↔
        ∃ i, 1 ≤ i ∧ i ≤ 10 ∧
          target ≤ Contrast.ratio (candidate foreground direction i) background) ∧
      ∀ s, search foreground background target direction = some s →
        ∃ k, IsLeast (Reaching foreground background target direction) k ∧
          s.color = candidate foreground direction k ∧ s.ratio = Contrast.ratio s.color background ∧
          target ≤ s.ratio ∧ s.direction = direction) ∧
    (∀ direction i, i ≤ 10 → 15 * i < 256 ∧
      (candidate foreground direction i).r.toNat = direction.moved (15 * i) foreground.r.toNat ∧
      (candidate foreground direction i).g.toNat = direction.moved (15 * i) foreground.g.toNat ∧
      (candidate foreground direction i).b.toNat = direction.moved (15 * i) foreground.b.toNat) ∧
    suggest foreground background target =
      (search foreground background target .darker).toList ++
        (search foreground background target .lighter).toList := by
  refine ⟨fun direction => ⟨isSome_search_iff, ?_⟩, ?_, suggest_eq⟩
  · intro s hs
    obtain ⟨k, hleast, rfl⟩ := search_eq_some_iff.mp hs
    exact ⟨k, hleast, rfl, rfl, hleast.1.2.2, rfl⟩
  · intro direction i hi
    exact ⟨by omega, toNat_move direction (15 * i) foreground⟩

/-- A light grey on white reaches the contrast `4.5` toward black. -/
theorem search_finds_least_grey :
    search ⟨153, 153, 153⟩ .white 4.5 .darker = some (afterSteps ⟨153, 153, 153⟩ .white .darker 3) ∧
      ∃ k, IsLeast (Reaching ⟨153, 153, 153⟩ .white 4.5 .darker) k ∧
        (afterSteps ⟨153, 153, 153⟩ .white .darker 3).color =
          candidate ⟨153, 153, 153⟩ .darker k := by
  have hsearch :
      search ⟨153, 153, 153⟩ .white 4.5 .darker =
        some (afterSteps ⟨153, 153, 153⟩ .white .darker 3) := by
    decide +kernel
  obtain ⟨k, hleast, hcolor, -⟩ :=
    ((search_finds_least ⟨153, 153, 153⟩ .white 4.5).1 .darker).2 _ hsearch
  exact ⟨hsearch, k, hleast, hcolor⟩

end Suggestion

end DesignTokens

import DesignTokens.Proofs.TypeScale.Step
import DesignTokens.TypeScale.Basic

/-!
# Generating a type scale

The check of options is decided by conditions that are independent of their order
(`check_eq_ok_iff`).  After it the steps are computed one by one, and the first that has a term out
of range ends the work (`mapM_step`).  There are thus three ways in which a generation can end
(`generate_cases`), and a scale is given as a whole or not at all (`generate_is_whole`).  Each step
passes or fails on its own, so that generation distributes over lists of steps
(`generation_distributes`).
-/

namespace DesignTokens

open Number

/-- A fault that is not about a colour is worded as one of the configuration. -/
theorem Fault.exists_message_eq {fault : Fault} (h : fault.isColor = false) :
    ∃ cause, fault.message = configurationText cause := by
  cases fault with
  | colorLength input => simp [isColor] at h
  | colorDigit input => simp [isColor] at h
  | _ => exact ⟨_, rfl⟩

/-! ### Options -/

namespace ScaleOptions

variable {options : ScaleOptions}

/-- Options that describe the sizes of a scale. -/
structure IsValid (options : ScaleOptions) : Prop where
  ratio : Positive options.ratio.value
  baseSize : Positive options.baseSize
  viewport : options.hasViewport = true
  steps : options.steps ≠ []
  sizes : ∀ index ∈ options.steps, Positive (options.size index)

theorem find?_hasSize_eq_none_iff :
    (options.steps.find? fun index => !options.hasSize index) = none ↔
      ∀ index ∈ options.steps, Positive (options.size index) := by
  rw [List.find?_eq_none]
  simp only [Bool.not_eq_true, Bool.not_eq_false', hasSize, isPositive_iff]

/-- The check says yes to valid options and to no others; what it says no to is never a matter of
colours. -/
theorem check_cases (options : ScaleOptions) :
    (∃ fault, options.check = .error fault ∧ fault.isColor = false ∧ ¬options.IsValid) ∨
      (options.check = .ok () ∧ options.IsValid) := by
  unfold check
  split_ifs with hratio hbase hviewport hsteps
  · rw [Bool.not_eq_true'] at hratio
    refine .inl ⟨_, rfl, rfl, fun h => ?_⟩
    rw [isPositive_iff.mpr h.ratio] at hratio
    cases hratio
  · rw [Bool.not_eq_true'] at hbase
    refine .inl ⟨_, rfl, rfl, fun h => ?_⟩
    rw [isPositive_iff.mpr h.baseSize] at hbase
    cases hbase
  · rw [Bool.not_eq_true'] at hviewport
    refine .inl ⟨_, rfl, rfl, fun h => ?_⟩
    rw [h.viewport] at hviewport
    cases hviewport
  · exact .inl ⟨_, rfl, rfl, fun h => h.steps (List.isEmpty_iff.mp hsteps)⟩
  · rw [Bool.not_eq_true', Bool.not_eq_false] at hratio hbase hviewport
    cases hfind : options.steps.find? fun index => !options.hasSize index with
    | some index =>
      refine .inl ⟨_, rfl, rfl, fun h => ?_⟩
      rw [find?_hasSize_eq_none_iff.mpr h.sizes] at hfind
      cases hfind
    | none =>
      refine .inr ⟨rfl, isPositive_iff.mp hratio, isPositive_iff.mp hbase, hviewport, ?_,
        find?_hasSize_eq_none_iff.mp hfind⟩
      intro hnil
      exact hsteps (List.isEmpty_iff.mpr hnil)

theorem check_eq_ok_iff : options.check = .ok () ↔ options.IsValid := by
  rcases check_cases options with ⟨fault, hcheck, -, hinvalid⟩ | ⟨hcheck, hvalid⟩
  · simp [hcheck, hinvalid]
  · simp [hcheck, hvalid]

theorem isColor_of_check_eq_error {fault : Fault} (h : options.check = .error fault) :
    fault.isColor = false := by
  rcases check_cases options with ⟨fault', hcheck, hcolor, -⟩ | ⟨hcheck, -⟩
  · rw [hcheck] at h
    obtain rfl := Except.error.inj h
    exact hcolor
  · rw [hcheck] at h
    cases h

end ScaleOptions

namespace TypeScale

variable {options : ScaleOptions}

/-! ### Steps in a row -/

/-- The first index whose step has a term that is not finite. -/
def unfit? (options : ScaleOptions) (indices : List ℤ) : Option ℤ :=
  indices.find? fun index => !(Step.compute options index).clamp.isFinite

theorem unfit?_eq_none_iff {indices : List ℤ} :
    unfit? options indices = none ↔
      ∀ index ∈ indices, (Step.compute options index).clamp.isFinite = true := by
  rw [unfit?, List.find?_eq_none]
  simp only [Bool.not_eq_true, Bool.not_eq_false']

theorem step_of_isFinite {index : ℤ} (h : (Step.compute options index).clamp.isFinite = true) :
    step options index = .ok (Step.compute options index) :=
  if_pos h

theorem step_of_not_isFinite {index : ℤ} (h : (Step.compute options index).clamp.isFinite = false) :
    step options index = .error (.noFiniteClamp index options.minViewport options.maxViewport) :=
  if_neg (by rw [h]; exact Bool.false_ne_true)

/-- Either all steps are given, in the order of the indices, or the first unfit one is the fault. -/
theorem mapM_step (options : ScaleOptions) (indices : List ℤ) :
    indices.mapM (step options) =
      match unfit? options indices with
      | none => .ok (indices.map (Step.compute options))
      | some index => .error (.noFiniteClamp index options.minViewport options.maxViewport) := by
  induction indices with
  | nil => rfl
  | cons index indices ih =>
    rw [List.mapM_cons, ih]
    unfold unfit?
    cases hfinite : (Step.compute options index).clamp.isFinite with
    | false =>
      rw [step_of_not_isFinite hfinite, List.find?_cons_of_pos (by rw [hfinite]; rfl)]
      rfl
    | true =>
      rw [step_of_isFinite hfinite,
        List.find?_cons_of_neg (by rw [hfinite]; exact Bool.false_ne_true)]
      -- what the rest of the list gives is passed on
      cases indices.find? fun index => !(Step.compute options index).clamp.isFinite with
      | none => rfl
      | some unfit => rfl

/-! ### The scale -/

/-- All that a generation can do: the options are refused, or a step is, or the whole scale is
there. -/
theorem generate_cases (options : ScaleOptions) :
    (∃ fault, options.check = .error fault ∧ generate options = .error fault) ∨
    (options.check = .ok () ∧ ∃ index, unfit? options options.steps = some index ∧
      generate options = .error (.noFiniteClamp index options.minViewport options.maxViewport)) ∨
    (options.check = .ok () ∧ unfit? options options.steps = none ∧
      generate options = .ok ⟨options, options.steps.map (Step.compute options)⟩) := by
  unfold generate
  rw [mapM_step]
  cases hcheck : options.check with
  | error fault => exact .inl ⟨fault, rfl, rfl⟩
  | ok =>
    cases hunfit : unfit? options options.steps with
    | some index => exact .inr (.inl ⟨rfl, index, rfl, rfl⟩)
    | none => exact .inr (.inr ⟨rfl, rfl, rfl⟩)

theorem generate_eq_ok_iff {scale : TypeScale} :
    generate options = .ok scale ↔
      options.IsValid ∧
      (∀ index ∈ options.steps, (Step.compute options index).clamp.isFinite = true) ∧
        scale = ⟨options, options.steps.map (Step.compute options)⟩ := by
  rw [← ScaleOptions.check_eq_ok_iff, ← unfit?_eq_none_iff]
  rcases generate_cases options with
    ⟨fault, hcheck, hgenerate⟩ | ⟨-, index, hunfit, hgenerate⟩ | ⟨hcheck, hunfit, hgenerate⟩
  · simp [hgenerate, hcheck]
  · simp [hgenerate, hunfit]
  · simp [hgenerate, hcheck, hunfit, eq_comm]

/-- The default options have a scale. -/
theorem exists_generate_default : ∃ scale, generate {} = .ok scale := by
  have hvalid : ({} : ScaleOptions).IsValid := ScaleOptions.check_eq_ok_iff.mp (by decide +kernel)
  exact ⟨_, generate_eq_ok_iff.mpr ⟨hvalid, by decide +kernel, rfl⟩⟩

/-- The fault of a generation is that of the check, or it is about the first unfit step. -/
theorem fault_of_generate {fault : Fault} (h : generate options = .error fault) :
    options.check = .error fault ∨
    options.check = .ok () ∧ ∃ index, unfit? options options.steps = some index ∧
      fault = .noFiniteClamp index options.minViewport options.maxViewport := by
  rcases generate_cases options with
    ⟨fault', hcheck, hgenerate⟩ | ⟨hcheck, index, hunfit, hgenerate⟩ | ⟨-, -, hgenerate⟩
  all_goals
    rw [hgenerate] at h
  · obtain rfl := Except.error.inj h
    exact .inl hcheck
  · obtain rfl := Except.error.inj h
    exact .inr ⟨hcheck, index, hunfit, rfl⟩
  · cases h

/-- A generation gives the whole scale or a fault of the configuration.  The scale is there exactly
if the check passes and all four terms of every step are finite; it then has its options and one
step for each index, in their order, with sizes that are finite and positive.  The fault is that of
the check, or names the first step with a term that is not finite. -/
theorem generate_is_whole (options : ScaleOptions) :
    ((∃ scale, generate options = .ok scale) ↔
      options.check = .ok () ∧
        ∀ index ∈ options.steps, ∀ term ∈ (Step.compute options index).clamp.terms,
        term.isFinite = true) ∧
    (∀ scale, generate options = .ok scale →
      scale.options = options ∧ scale.steps = options.steps.map (Step.compute options) ∧
        ∀ step ∈ scale.steps, Positive step.minSize ∧ Positive step.maxSize) ∧
    (∀ fault, generate options = .error fault →
      fault.isColor = false ∧ (∃ cause, fault.message = Fault.configurationText cause) ∧
        (options.check = .error fault ∨ ∃ index, unfit? options options.steps = some index ∧
          fault = .noFiniteClamp index options.minViewport options.maxViewport)) := by
  refine ⟨?_, ?_, ?_⟩
  · simp only [generate_eq_ok_iff, exists_and_left, exists_eq, and_true,
      ScaleOptions.check_eq_ok_iff, Clamp.isFinite_iff]
  · intro scale hscale
    obtain ⟨hvalid, -, rfl⟩ := generate_eq_ok_iff.mp hscale
    refine ⟨rfl, rfl, ?_⟩
    intro step hstep
    obtain ⟨index, hindex, rfl⟩ := List.mem_map.mp hstep
    have hsize := hvalid.sizes index hindex
    exact ⟨Step.positive_minSize hsize, hsize⟩
  · intro fault hfault
    rcases fault_of_generate hfault with hcheck | ⟨-, index, hunfit, rfl⟩
    · have hcolor := ScaleOptions.isColor_of_check_eq_error hcheck
      exact ⟨hcolor, Fault.exists_message_eq hcolor, .inl hcheck⟩
    · exact ⟨rfl, ⟨_, rfl⟩, .inr ⟨index, hunfit, rfl⟩⟩

/-- Options that ask for one step twice. -/
def repeated : ScaleOptions := { steps := [3, -1, 3] }

/-- A viewport range so narrow that the slope of any step overflows. -/
def narrow : ScaleOptions := { minViewport := 0.0, maxViewport := 1e-320, steps := [0, 1] }

/-- A repeated step is given twice, and on a narrow range already the first step is refused. -/
theorem generate_is_whole_repeated :
    (∃ scale, generate repeated = .ok scale ∧
      scale.steps = [Step.compute repeated 3, Step.compute repeated (-1), Step.compute repeated 3] ∧
      ∀ step ∈ scale.steps, Positive step.minSize ∧ Positive step.maxSize) ∧
    narrow.check = .ok () ∧ ¬∃ scale, generate narrow = .ok scale := by
  obtain ⟨hexists, hwhole, -⟩ := generate_is_whole repeated
  obtain ⟨scale, hscale⟩ := hexists.mpr (by decide)
  obtain ⟨-, hsteps, hpositive⟩ := hwhole scale hscale
  refine ⟨⟨scale, hscale, hsteps, hpositive⟩, by decide +kernel, ?_⟩
  rw [(generate_is_whole narrow).1]
  decide +kernel

/-! ### Steps on their own -/

/-- Whether there is a scale with these steps in place of those of the options. -/
def HasScale (options : ScaleOptions) (steps : List ℤ) : Prop :=
  ∃ scale, generate { options with steps } = .ok scale

/-- A step that can stand in a scale, whatever the others are. -/
structure IsFit (options : ScaleOptions) (index : ℤ) : Prop where
  ratio : Positive options.ratio.value
  baseSize : Positive options.baseSize
  viewport : options.hasViewport = true
  size : Positive (options.size index)
  clamp : (Step.compute options index).clamp.isFinite = true

/-- The steps of a scale are looked at one by one: neither the check nor the computation compares
them. -/
theorem hasScale_iff {steps : List ℤ} :
    HasScale options steps ↔ steps ≠ [] ∧ ∀ index ∈ steps, IsFit options index := by
  unfold HasScale
  simp only [generate_eq_ok_iff, exists_and_left, exists_eq, and_true]
  constructor
  · rintro ⟨hvalid, hfinite⟩
    exact ⟨hvalid.steps, fun index hindex =>
      ⟨hvalid.ratio, hvalid.baseSize, hvalid.viewport, hvalid.sizes index hindex,
      hfinite index hindex⟩⟩
  · rintro ⟨hsteps, hfit⟩
    -- what the steps have in common is taken from the first one
    obtain ⟨first, hfirst⟩ := List.exists_mem_of_ne_nil steps hsteps
    have hcommon := hfit first hfirst
    exact ⟨⟨hcommon.ratio, hcommon.baseSize, hcommon.viewport, hsteps,
      fun index hindex => (hfit index hindex).size⟩, fun index hindex => (hfit index hindex).clamp⟩

theorem steps_of_generate {steps : List ℤ} {scale : TypeScale}
    (h : generate { options with steps } = .ok scale) :
    scale.steps = steps.map (Step.compute options) := by
  obtain ⟨-, -, rfl⟩ := generate_eq_ok_iff.mp h
  rfl

/-- There is a scale for two lists of steps one after the other exactly if there is one for each,
and it then has the steps of both in this order.  Hence neither the order of steps nor their
repetition decides whether there is a scale, and what is given for a step does not depend on the
others. -/
theorem generation_distributes (options : ScaleOptions) {xs ys : List ℤ} (hxs : xs ≠ [])
    (hys : ys ≠ []) :
    (HasScale options (xs ++ ys) ↔ HasScale options xs ∧ HasScale options ys) ∧
    (∀ scale, generate { options with steps := xs ++ ys } = .ok scale →
      ∃ left right, generate { options with steps := xs } = .ok left ∧
        generate { options with steps := ys } = .ok right ∧
        scale.steps = left.steps ++ right.steps) ∧
    ((∀ index, index ∈ xs ↔ index ∈ ys) → (HasScale options xs ↔ HasScale options ys)) ∧
    ∃ output : ℤ → Step Float, ∀ steps scale, generate { options with steps } = .ok scale →
      scale.steps = steps.map output := by
  have happend : HasScale options (xs ++ ys) ↔ HasScale options xs ∧ HasScale options ys := by
    rw [hasScale_iff, hasScale_iff, hasScale_iff, List.forall_mem_append]
    constructor
    · rintro ⟨-, hleft, hright⟩
      exact ⟨⟨hxs, hleft⟩, hys, hright⟩
    · rintro ⟨⟨-, hleft⟩, -, hright⟩
      exact ⟨List.append_ne_nil_of_left_ne_nil hxs ys, hleft, hright⟩
  refine ⟨happend, ?_, ?_, Step.compute options, fun steps scale => steps_of_generate⟩
  · intro scale hscale
    obtain ⟨⟨left, hleft⟩, right, hright⟩ := happend.mp ⟨scale, hscale⟩
    refine ⟨left, right, hleft, hright, ?_⟩
    rw [steps_of_generate hscale, steps_of_generate hleft, steps_of_generate hright,
      List.map_append]
  · intro hsame
    rw [hasScale_iff, hasScale_iff]
    simp only [hsame, hxs, hys, ne_eq, not_false_eq_true, true_and]

/-- Steps in another order and with a repetition: there is a scale for the one list as for the
other, and for both in one. -/
theorem generation_distributes_shuffled :
    HasScale {} [3, -1] ∧ HasScale {} [-1, 3, -1] ∧ HasScale {} ([3, -1] ++ [-1, 3, -1]) := by
  obtain ⟨happend, -, hsame, -⟩ :=
    generation_distributes {} (List.cons_ne_nil 3 [-1]) (List.cons_ne_nil (-1) [3, -1])
  have hdefault : HasScale {} ({} : ScaleOptions).steps := exists_generate_default
  have hfit := (hasScale_iff.mp hdefault).2
  have hsubset : [3, -1] ⊆ ({} : ScaleOptions).steps := by decide
  have hfirst : HasScale {} [3, -1] :=
    hasScale_iff.mpr ⟨List.cons_ne_nil 3 [-1], fun index hindex => hfit index (hsubset hindex)⟩
  have hsecond := (hsame (by simp)).mp hfirst
  exact ⟨hfirst, hsecond, happend.mpr ⟨hfirst, hsecond⟩⟩

end TypeScale

end DesignTokens

import DesignTokens.Json.Printer
import DesignTokens.Proofs.Number.Text

/-!
# What stands in documents

`Datum.floats` lists the floats of a document value and `Datum.valuesOf` what stands under a key, at
any depth.  A float is written `null` exactly if it is NaN or `±∞` (`float_eq_null_iff`): a finite
one begins with `-` or a digit.
-/

namespace DesignTokens

namespace Datum

mutual

/-- The floats of a document value, in the order of writing. -/
def floats : Datum → List Float
  | .float x => [x]
  | .list items => itemFloats items
  | .table fields => fieldFloats fields
  | .null | .bool _ | .integer _ | .text _ | .moment | .unreadable => []

/-- The floats of the elements of an array. -/
def itemFloats : List Datum → List Float
  | [] => []
  | item :: items => floats item ++ itemFloats items

/-- The floats of the fields of a table. -/
def fieldFloats : List (String × Datum) → List Float
  | [] => []
  | (_, value) :: fields => floats value ++ fieldFloats fields

end

theorem itemFloats_map {α : Type} (f : α → Datum) (xs : List α) :
    itemFloats (xs.map f) = xs.flatMap fun x => (f x).floats := by
  induction xs with
  | nil => rfl
  | cons x xs ih => rw [List.map_cons, itemFloats, ih, List.flatMap_cons]

mutual

/-- What stands under a key in a document value, in the order of writing. -/
def valuesOf (key : String) : Datum → List Datum
  | .list items => itemValues key items
  | .table fields => fieldValues key fields
  | .null | .bool _ | .integer _ | .float _ | .text _ | .moment | .unreadable => []

/-- What stands under a key in the items of a list. -/
def itemValues (key : String) : List Datum → List Datum
  | [] => []
  | item :: items => valuesOf key item ++ itemValues key items

/-- What stands under a key among the fields of a table and in their values. -/
def fieldValues (key : String) : List (String × Datum) → List Datum
  | [] => []
  | (name, value) :: fields =>
    (if name = key then [value] else []) ++ valuesOf key value ++ fieldValues key fields

end

theorem itemValues_map {α : Type} (key : String) (f : α → Datum) (xs : List α) :
    itemValues key (xs.map f) = xs.flatMap fun x => (f x).valuesOf key := by
  induction xs with
  | nil => rfl
  | cons x xs ih => rw [List.map_cons, itemValues, ih, List.flatMap_cons]

end Datum

namespace Json

open Number Decimal

/-- A text that begins with a decimal digit. -/
def BeginsWithDigit (cs : List Char) : Prop :=
  ∃ c rest, cs = c :: rest ∧ c.isDigit = true

theorem BeginsWithDigit.append {cs : List Char} (h : BeginsWithDigit cs) (ds : List Char) :
    BeginsWithDigit (cs ++ ds) := by
  obtain ⟨c, rest, rfl, hc⟩ := h
  exact ⟨c, rest ++ ds, rfl, hc⟩

theorem beginsWithDigit_of_isNumeral {cs : List Char} (h : IsNumeral cs) : BeginsWithDigit cs := by
  obtain ⟨c, rest, rfl⟩ := List.exists_cons_of_ne_nil h.ne_nil
  exact ⟨c, rest, rfl, h.allDigits c List.mem_cons_self⟩

theorem beginsWithDigit_digits (d : Decimal) : BeginsWithDigit d.digits :=
  beginsWithDigit_of_isNumeral (isNumeral_toDigits d.coefficient)

theorem beginsWithDigit_positional (d : Decimal) : BeginsWithDigit d.positional := by
  rcases lt_or_ge d.exponent 0 with hlt | hge
  · obtain ⟨whole, fraction, htext, -, hsplits⟩ := splits_of_exponent_neg hlt
    rw [htext]
    exact (beginsWithDigit_of_isNumeral hsplits.isNumeral).append _
  · have hplaces : (-d.exponent).toNat = 0 := by omega
    unfold positional
    dsimp only
    rw [if_pos hplaces]
    exact (beginsWithDigit_digits d).append _

theorem beginsWithDigit_scientific (d : Decimal) : BeginsWithDigit d.scientific := by
  obtain ⟨c, rest, hdigits, hc⟩ := beginsWithDigit_digits d
  unfold scientific
  dsimp only
  refine BeginsWithDigit.append ?_ _
  rw [hdigits]
  cases rest with
  | nil => exact ⟨c, [], rfl, hc⟩
  | cons second rest => exact ⟨c, _, rfl, hc⟩

theorem beginsWithDigit_layout (d : Decimal) : BeginsWithDigit (layout d) := by
  unfold layout
  split_ifs
  · exact beginsWithDigit_positional d
  · exact (beginsWithDigit_positional d).append _
  · exact beginsWithDigit_scientific d

theorem signed_ne_null (negative : Bool) {text : List Char} (h : BeginsWithDigit text) :
    signed negative text ≠ "null".toList := by
  obtain ⟨c, rest, rfl, hc⟩ := h
  cases negative with
  | true =>
    intro heq
    cases heq
  | false =>
    intro heq
    obtain rfl : c = 'n' := (List.cons.inj heq).1
    exact absurd hc (by decide)

/-- A float is written `null` exactly if it is NaN or `±∞`. -/
theorem float_eq_null_iff {x : Float} : float x = "null".toList ↔ x.isFinite = false := by
  unfold float
  cases hx : x.isFinite with
  | false => simp
  | true =>
    obtain ⟨negative, d, -, -, -, htext⟩ := floatStyle.exists_layout hx
    rw [if_pos rfl, htext]
    exact iff_of_false (signed_ne_null negative (beginsWithDigit_layout d)) nofun

end Json

end DesignTokens

import DesignTokens.Text.Basic
import Mathlib.Data.List.Basic

/-!
# Words and lines of a text

A text is divided where it was joined: words come back from between their separators
(`parts_intercalate`) and lines from between their line breaks (`parts_unlines`).  A section of a
text stands between a heading and the next empty line (`sectionOf_append`).
-/

namespace DesignTokens.Text

/-- Words with a separator between them that stands in none of them are the parts of the text. -/
theorem parts_intercalate (separator : Char) {words : List String} (hne : words ≠ [])
    (hwords : ∀ word ∈ words, separator ∉ word.toList) :
    parts separator (String.ofList ([separator].intercalate (words.map String.toList))) =
      words := by
  have hchars : ∀ cs ∈ words.map String.toList, separator ∉ cs := by
    simpa only [List.forall_mem_map] using hwords
  rw [parts, String.toList_ofList,
    List.splitOn_intercalate _ hchars (by simpa using hne), List.map_map]
  simp

/-- A run of characters ends at the first one of another kind. -/
theorem run_append {p : Char → Bool} {cs : List Char} (hcs : ∀ c ∈ cs, p c = true)
    (rest : List Char) (hrest : ∀ c ∈ rest.head?, p c = false) :
    (cs ++ rest).takeWhile p = cs ∧ (cs ++ rest).dropWhile p = rest := by
  rw [List.takeWhile_append_of_pos hcs, List.dropWhile_append_of_pos hcs]
  cases rest with
  | nil => simp
  | cons c rest => simp [hrest c rfl]

/-- The first part of a text ends at the first separator. -/
theorem splitOn_append_cons {separator : Char} {cs : List Char} (h : separator ∉ cs)
    (rest : List Char) :
    (cs ++ separator :: rest).splitOn separator = cs :: rest.splitOn separator := by
  have hcs : ∀ c ∈ cs, (c == separator) = false := by
    intro c hc
    rw [beq_eq_false_iff_ne]
    rintro rfl
    exact h hc
  rw [List.splitOn_eq_splitOnP,
    List.splitOnP_append_cons_of_forall_mem hcs separator (beq_self_eq_true separator),
    ← List.splitOn_eq_splitOnP]

theorem unlines_nil : unlines [] = "" :=
  rfl

theorem unlines_cons (line : String) (lines : List String) :
    unlines (line :: lines) = line ++ "\n" ++ unlines lines := by
  rw [unlines, List.map_cons, String.join_cons]
  rfl

theorem unlines_append (lines lines' : List String) :
    unlines (lines ++ lines') = unlines lines ++ unlines lines' := by
  rw [unlines, List.map_append, String.join_append]
  rfl

/-- Lines without a line break in them are the parts of their text, and the last part is empty. -/
theorem parts_unlines {lines : List String} (h : ∀ line ∈ lines, '\n' ∉ line.toList) :
    parts '\n' (unlines lines) = lines ++ [""] := by
  induction lines with
  | nil => decide
  | cons line lines ih =>
    rw [List.forall_mem_cons] at h
    have hchars :
        (unlines (line :: lines)).toList = line.toList ++ '\n' :: (unlines lines).toList := by
      rw [unlines_cons, String.toList_append, String.toList_append, List.append_assoc]
      rfl
    rw [parts, hchars, splitOn_append_cons h.1, List.map_cons, String.ofList_toList]
    exact congrArg (line :: ·) (ih h.2)

/-- The lines behind a heading, up to the next empty line. -/
def sectionOf (heading : String) (lines : List String) : List String :=
  ((lines.dropWhile (· != heading)).drop 1).takeWhile (· != "")

theorem sectionOf_append {heading : String} {above body : List String} (below : List String)
    (habove : heading ∉ above) (hbody : "" ∉ body) :
    sectionOf heading (above ++ heading :: (body ++ "" :: below)) = body := by
  have hfront : ∀ line ∈ above, (line != heading) = true := by
    intro line hline
    rw [bne_iff_ne]
    rintro rfl
    exact habove hline
  have hinner : ∀ line ∈ body, (line != "") = true := by
    intro line hline
    rw [bne_iff_ne]
    rintro rfl
    exact hbody hline
  rw [sectionOf, List.dropWhile_append_of_pos hfront, List.dropWhile_cons_of_neg (by simp),
    List.drop_one, List.tail_cons, List.takeWhile_append_of_pos hinner,
    List.takeWhile_cons_of_neg (by simp), List.append_nil]

end DesignTokens.Text

import DesignTokens.Proofs.Text.StyleSheet
import DesignTokens.Text.UpperCase

/-!
# Upper case and names

The upper case of a character that can stand in a name can stand there too
(`isNameChar_of_mem_upper`), and no other character has one (`upper_eq_self`).  So a text and its
capitalization have the same characters that cannot stand in a name, in the same places
(`capitalize_cases`).
-/

namespace DesignTokens.Text

open StyleSheet

theorem caseExpansions_spec :
    ∀ expansion ∈ caseExpansions, 0x80 ≤ expansion.1 ∧ ∀ code ∈ expansion.2,
      isNameChar (Char.ofNat code) = true := by
  decide

/-- A run is of small letters or stays clear of ASCII; its upper case is of capital letters or stays
clear of ASCII. -/
theorem caseRuns_spec :
    ∀ run ∈ caseRuns,
      (0x61 ≤ run.first ∧ run.last ≤ 0x7a ∨ 0x80 ≤ run.first) ∧
        (0x41 ≤ run.first + run.offset ∧ run.last + run.offset ≤ 0x5a ∨
          0x80 ≤ run.first + run.offset ∧ run.last + run.offset < 0xd800 ∨
          0xe000 ≤ run.first + run.offset ∧ run.last + run.offset < 0x110000) := by
  decide +kernel

/-- What cannot stand in a name has no other case. -/
theorem upper_eq_self {c : Char} (h : isNameChar c = false) : upper c = [c] := by
  have hcode : ¬isNameChar c = true := by simp [h]
  rw [isNameChar_iff] at hcode
  have hexpansion : caseExpansions.lookup c.toNat = none := by
    rw [List.lookup_eq_none_iff]
    intro expansion hmem
    have hfirst := (caseExpansions_spec expansion hmem).1
    rw [bne_iff_ne]
    omega
  have hrun : caseRuns.find? (·.holds c.toNat) = none := by
    rw [List.find?_eq_none]
    intro run hmem hholds
    have hrange := (caseRuns_spec run hmem).1
    simp only [CaseRun.holds, Bool.and_eq_true, decide_eq_true_eq] at hholds
    omega
  rw [upper, hexpansion, hrun]

/-- The upper case of what can stand in a name can stand there too. -/
theorem isNameChar_of_mem_upper {c d : Char} (h : isNameChar c = true) (hd : d ∈ upper c) :
    isNameChar d = true := by
  unfold upper at hd
  split at hd
  case h_1 codes hlookup =>
    obtain ⟨front, rest, htable, -⟩ := List.lookup_eq_some_iff.mp hlookup
    have hmem : (c.toNat, codes) ∈ caseExpansions := by
      rw [htable]
      exact List.mem_append_right front (List.mem_cons_self ..)
    obtain ⟨code, hcode, rfl⟩ := List.mem_map.mp hd
    exact (caseExpansions_spec _ hmem).2 code hcode
  case h_2 =>
    split at hd
    case h_1 run hfind =>
      -- a run moves its characters by an offset, within the characters of names
      obtain ⟨-, hrange⟩ := caseRuns_spec run (List.mem_of_find?_eq_some hfind)
      have hholds := List.find?_some hfind
      simp only [CaseRun.holds, Bool.and_eq_true, decide_eq_true_eq] at hholds
      obtain rfl := List.mem_singleton.mp hd
      have hvalid : (c.toNat + run.offset).toNat.isValidChar := by
        unfold Nat.isValidChar
        omega
      have hcode : (Char.ofNat (c.toNat + run.offset).toNat).toNat = (c.toNat + run.offset).toNat :=
        congrArg Char.toNat (dif_pos hvalid)
      rw [isNameChar_iff, hcode]
      omega
    case h_2 =>
      rw [List.mem_singleton.mp hd]
      exact h

/-- The upper case of a text is another one at most in characters that can stand in a name. -/
theorem capitalize_cases (text : String) :
    capitalize text = text ∨
      ∃ c cs, text.toList = c :: cs ∧ isNameChar c = true ∧
        (capitalize text).toList = upper c ++ cs := by
  unfold capitalize
  split
  case h_1 htext => exact .inl (String.toList_eq_nil_iff.mp htext).symm
  case h_2 c cs htext =>
    cases hc : isNameChar c with
    | true => exact .inr ⟨c, cs, htext, hc, String.toList_ofList⟩
    | false =>
      left
      rw [upper_eq_self hc, List.singleton_append, ← htext, String.ofList_toList]

theorem count_capitalize {x : Char} (hx : isNameChar x = false) (text : String) :
    (capitalize text).toList.count x = text.toList.count x := by
  rcases capitalize_cases text with hsame | ⟨c, cs, htext, hc, hupper⟩
  · rw [hsame]
  · have hfirst : (upper c).count x = 0 := by
      rw [List.count_eq_zero]
      exact notMem_of_isNameChar hx fun _ hmem => isNameChar_of_mem_upper hc hmem
    have hne : c ≠ x := by
      rintro rfl
      rw [hc] at hx
      cases hx
    rw [hupper, htext, List.count_append, hfirst, Nat.zero_add, List.count_cons_of_ne hne]

theorem isNameChar_of_mem_capitalize {text : String} (h : ∀ c ∈ text.toList, isNameChar c = true) :
    ∀ c ∈ (capitalize text).toList, isNameChar c = true := by
  rcases capitalize_cases text with hsame | ⟨c, cs, htext, hc, hupper⟩
  · rwa [hsame]
  · rw [htext, List.forall_mem_cons] at h
    rw [hupper, List.forall_mem_append]
    exact ⟨fun d hd => isNameChar_of_mem_upper hc hd, h.2⟩

/-- Inside of a comment, the case of a letter does not matter. -/
theorem commentsFrom_capitalize {text : String} (h : ¬['/', '*'] <:+: text.toList) :
    commentsFrom .inside (capitalize text).toList = 0 := by
  have hmode : Mode.inside = Mode.slash → ∀ cs : List Char, cs.head? ≠ some '*' :=
    fun hslash => by cases hslash
  rcases capitalize_cases text with hsame | ⟨c, cs, htext, hc, hupper⟩
  · rw [hsame]
    exact commentsFrom_eq_zero h fun hslash => hmode hslash _
  · have hstar : '*' ∉ upper c := notMem_of_isNameChar (by decide) fun _ hmem =>
      isNameChar_of_mem_upper hc hmem
    have hfirst : commentsFrom .inside (upper c) = 0 := by
      apply commentsFrom_eq_zero
      · exact fun hpair => hstar (hpair.subset (List.mem_cons_of_mem _ (List.mem_cons_self ..)))
      · exact fun hslash => hmode hslash _
    have hrest : commentsFrom .inside cs = 0 := by
      apply commentsFrom_eq_zero
      · rw [htext] at h
        exact fun hpair => h (List.infix_cons hpair)
      · exact fun hslash => hmode hslash _
    rw [hupper, commentsFrom_append, hfirst, (bareFrom_inside hstar).2, hrest]

end DesignTokens.Text

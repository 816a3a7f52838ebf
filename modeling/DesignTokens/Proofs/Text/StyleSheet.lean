import DesignTokens.Proofs.Text.Lines
import Mathlib.Data.List.DropRight
import Mathlib.Data.List.Infix

/-!
# Reading a style sheet

What a style sheet declares is told by reading it: `rootBlock?` removes the comments and reads what
is left as one `:root` block of declarations.  Names are read without escapes, and strings in quotes
are not special.

Comments are found by a state machine that reads one character after another (`Mode.next`).  It can
be run over the parts of a text one after another, so that a comment is followed through a text of
which only some parts are known: `commentsFrom_outside_eq_zero_iff` says of an unknown part when it
begins a comment.
-/

namespace DesignTokens.StyleSheet

/-! ### Characters -/

/-- Whether a character is a CSS name character. -/
def isNameChar (c : Char) : Bool :=
  let n := c.toNat
  n == 0x2d || (0x30 ≤ n && n ≤ 0x39) || (0x41 ≤ n && n ≤ 0x5a) || n == 0x5f ||
    (0x61 ≤ n && n ≤ 0x7a) || 0x80 ≤ n

theorem isNameChar_iff {c : Char} :
    isNameChar c = true ↔
      c.toNat = 0x2d ∨ 0x30 ≤ c.toNat ∧ c.toNat ≤ 0x39 ∨ 0x41 ≤ c.toNat ∧ c.toNat ≤ 0x5a ∨
      c.toNat = 0x5f ∨
        0x61 ≤ c.toNat ∧ c.toNat ≤ 0x7a ∨ 0x80 ≤ c.toNat := by
  simp [isNameChar, or_assoc]

theorem isNameChar_of_isDigit {c : Char} (h : c.isDigit = true) : isNameChar c = true := by
  have hrange : 48 ≤ c.toNat ∧ c.toNat ≤ 57 := by
    simpa [Char.isDigit, UInt32.le_iff_toNat_le] using h
  rw [isNameChar_iff]
  omega

theorem notMem_of_isNameChar {x : Char} {cs : List Char} (hx : isNameChar x = false)
    (hcs : ∀ c ∈ cs, isNameChar c = true) : x ∉ cs := by
  intro hmem
  rw [hcs x hmem] at hx
  cases hx

/-- CSS whitespace. -/
def isSpace (c : Char) : Bool :=
  c == ' ' || c == '\n' || c == '\t' || c == '\r' || c == '\x0c'

theorem isSpace_of_isNameChar {c : Char} (h : isNameChar c = true) : isSpace c = false := by
  rw [← Bool.not_eq_true]
  intro hspace
  simp only [isSpace, Bool.or_eq_true, beq_iff_eq] at hspace
  rcases hspace with (((rfl | rfl) | rfl) | rfl) | rfl <;> exact absurd h (by decide)

theorem notMem_of_isSpace {x : Char} {cs : List Char} (hx : isSpace x = false)
    (hcs : ∀ c ∈ cs, isSpace c = true) : x ∉ cs := by
  intro hmem
  rw [hcs x hmem] at hx
  cases hx

/-! ### Comments -/

/-- Where a character stands: outside of all comments, there behind a slash that may begin one,
inside of a comment, or there behind a star that may end it. -/
inductive Mode where
  | outside
  | slash
  | inside
  | star
deriving DecidableEq

namespace Mode

/-- The mode behind a character. -/
def next : Mode → Char → Mode
  | outside, c => if c = '/' then slash else outside
  | slash, c => if c = '*' then inside else if c = '/' then slash else outside
  | inside, c => if c = '*' then star else inside
  | star, c => if c = '/' then outside else if c = '*' then star else inside

/-- What stays of a text at a character when the comments go.  A slash waits for the character
behind it, and a comment leaves a space. -/
def bare : Mode → Char → List Char
  | outside, c => if c = '/' then [] else [c]
  | slash, c => if c = '*' then [' '] else if c = '/' then ['/'] else ['/', c]
  | inside, _ => []
  | star, _ => []

/-- Whether a comment begins with a character. -/
def begins (mode : Mode) (c : Char) : Bool :=
  mode == slash && c == '*'

/-- Whether a mode is not in a comment. -/
def isCode : Mode → Bool
  | outside => true
  | slash => true
  | inside => false
  | star => false

/-- The mode behind a text. -/
def run (mode : Mode) (cs : List Char) : Mode :=
  cs.foldl next mode

theorem run_append (mode : Mode) (cs ds : List Char) : mode.run (cs ++ ds) = (mode.run cs).run ds :=
  List.foldl_append

/-- Only a character that begins a comment leads into one. -/
theorem isCode_next {mode : Mode} {c : Char} (hcode : mode.isCode = true)
    (hc : mode.begins c = false) : (mode.next c).isCode = true := by
  cases mode with
  | outside =>
    show (if c = '/' then slash else outside).isCode = true
    split_ifs <;> rfl
  | slash =>
    have hstar : c ≠ '*' := by simpa [begins] using hc
    show (if c = '*' then inside else if c = '/' then slash else outside).isCode = true
    rw [if_neg hstar]
    split_ifs <;> rfl
  | inside => cases hcode
  | star => cases hcode

theorem next_eq_slash {mode : Mode} {c : Char} (h : mode.next c = slash) : c = '/' := by
  cases mode <;> simp only [next] at h <;> split_ifs at h <;> assumption

end Mode

/-- What stays of a text when the comments go, up to a slash at its end. -/
def bareFrom : Mode → List Char → List Char
  | _, [] => []
  | mode, c :: cs => mode.bare c ++ bareFrom (mode.next c) cs

/-- How many comments begin in a text. -/
def commentsFrom : Mode → List Char → ℕ
  | _, [] => 0
  | mode, c :: cs => (if mode.begins c then 1 else 0) + commentsFrom (mode.next c) cs

/-- A text without its comments. -/
def withoutComments (text : String) : List Char :=
  bareFrom .outside text.toList ++ if Mode.run .outside text.toList = .slash then ['/'] else []

/-- The number of comments in a text. -/
def comments (text : String) : ℕ :=
  commentsFrom .outside text.toList

theorem bareFrom_append (mode : Mode) (cs ds : List Char) :
    bareFrom mode (cs ++ ds) = bareFrom mode cs ++ bareFrom (mode.run cs) ds := by
  induction cs generalizing mode with
  | nil => rfl
  | cons c cs ih =>
    show mode.bare c ++ bareFrom (mode.next c) (cs ++ ds) = _
    rw [ih, ← List.append_assoc]
    rfl

theorem commentsFrom_append (mode : Mode) (cs ds : List Char) :
    commentsFrom mode (cs ++ ds) = commentsFrom mode cs + commentsFrom (mode.run cs) ds := by
  induction cs generalizing mode with
  | nil => exact (Nat.zero_add _).symm
  | cons c cs ih =>
    show (if mode.begins c then 1 else 0) + commentsFrom (mode.next c) (cs ++ ds) = _
    rw [ih, ← Nat.add_assoc]
    rfl

/-- A text without a slash stays as it is outside of comments. -/
theorem bareFrom_outside {cs : List Char} (h : '/' ∉ cs) :
    bareFrom .outside cs = cs ∧ Mode.run .outside cs = .outside := by
  induction cs with
  | nil => exact ⟨rfl, rfl⟩
  | cons c cs ih =>
    rw [List.mem_cons, not_or] at h
    obtain ⟨hbare, hrun⟩ := ih h.2
    have hnext : Mode.next .outside c = .outside := if_neg (Ne.symm h.1)
    constructor
    · show Mode.bare .outside c ++ bareFrom (Mode.next .outside c) cs = c :: cs
      rw [hnext, hbare]
      exact congrArg (· ++ cs) (if_neg (Ne.symm h.1))
    · show Mode.run (Mode.next .outside c) cs = .outside
      rw [hnext, hrun]

/-- A text without a star goes with the comment it stands in. -/
theorem bareFrom_inside {cs : List Char} (h : '*' ∉ cs) :
    bareFrom .inside cs = [] ∧ Mode.run .inside cs = .inside := by
  induction cs with
  | nil => exact ⟨rfl, rfl⟩
  | cons c cs ih =>
    rw [List.mem_cons, not_or] at h
    have hnext : Mode.next .inside c = .inside := if_neg (Ne.symm h.1)
    constructor
    · show bareFrom (Mode.next .inside c) cs = []
      rw [hnext]
      exact (ih h.2).1
    · show Mode.run (Mode.next .inside c) cs = .inside
      rw [hnext]
      exact (ih h.2).2

/-- Where no slash has a star behind it, no comment begins. -/
theorem commentsFrom_eq_zero {mode : Mode} {cs : List Char} (h : ¬['/', '*'] <:+: cs)
    (hfirst : mode = .slash → cs.head? ≠ some '*') : commentsFrom mode cs = 0 := by
  induction cs generalizing mode with
  | nil => rfl
  | cons c cs ih =>
    have hbegins : mode.begins c = false := by
      rw [← Bool.not_eq_true]
      intro hc
      obtain ⟨hslash, rfl⟩ : mode = .slash ∧ c = '*' := by simpa [Mode.begins] using hc
      exact hfirst hslash rfl
    have hrest : commentsFrom (mode.next c) cs = 0 := by
      apply ih
      · exact fun hpair => h (List.infix_cons hpair)
      · intro hnext hhead
        obtain rfl := Mode.next_eq_slash hnext
        obtain ⟨rest, rfl⟩ := List.head?_eq_some_iff.mp hhead
        exact h ⟨[], rest, rfl⟩
    show (if mode.begins c then 1 else 0) + commentsFrom (mode.next c) cs = 0
    rw [hbegins, hrest]
    rfl

/-- Outside of comments, a slash with a star behind it begins one, if none has begun before. -/
theorem commentsFrom_pos {mode : Mode} {cs : List Char} (hcode : mode.isCode = true)
    (h : ['/', '*'] <:+: cs) : 0 < commentsFrom mode cs := by
  obtain ⟨front, rest, rfl⟩ := h
  induction front generalizing mode with
  | nil =>
    have hslash : mode.next '/' = .slash := by
      cases mode with
      | outside => rfl
      | slash => rfl
      | inside => cases hcode
      | star => cases hcode
    show 0 < (if mode.begins '/' then 1 else 0) + commentsFrom (mode.next '/') ('*' :: rest)
    rw [hslash]
    exact Nat.lt_add_left _ (Nat.lt_add_right _ Nat.one_pos)
  | cons c front ih =>
    show 0 < (if mode.begins c then 1 else 0) +
      commentsFrom (mode.next c) (front ++ ['/', '*'] ++ rest)
    cases hc : mode.begins c with
    | true => exact Nat.lt_add_right _ Nat.one_pos
    | false => exact Nat.lt_add_left _ (ih (Mode.isCode_next hcode hc))

theorem commentsFrom_outside_eq_zero_iff {cs : List Char} :
    commentsFrom .outside cs = 0 ↔ ¬['/', '*'] <:+: cs := by
  constructor
  · intro hzero hpair
    exact (commentsFrom_pos rfl hpair).ne' hzero
  · intro h
    exact commentsFrom_eq_zero h (fun hmode => by cases hmode)

/-- A text in which no comment begins does not lead into one. -/
theorem isCode_run {mode : Mode} {cs : List Char} (hcode : mode.isCode = true)
    (h : commentsFrom mode cs = 0) : (mode.run cs).isCode = true := by
  induction cs generalizing mode with
  | nil => exact hcode
  | cons c cs ih =>
    obtain ⟨hbegins, hrest⟩ := Nat.add_eq_zero_iff.mp h
    have hc : mode.begins c = false := by simpa using hbegins
    exact ih (Mode.isCode_next hcode hc) hrest

/-- Any other character than a slash or a star leads from a slash back outside. -/
theorem run_cons_of_isCode {mode : Mode} {c : Char} {cs : List Char} (hcode : mode.isCode = true)
    (hslash : c ≠ '/') (hstar : c ≠ '*') (hcs : '/' ∉ cs) : mode.run (c :: cs) = .outside := by
  have hnext : mode.next c = .outside := by
    cases mode with
    | outside => exact if_neg hslash
    | slash => exact (if_neg hstar).trans (if_neg hslash)
    | inside => cases hcode
    | star => cases hcode
  show (mode.next c).run cs = .outside
  rw [hnext]
  exact (bareFrom_outside hcs).2

/-! ### Declarations -/

/-- Characters without the space around them. -/
def strip (cs : List Char) : List Char :=
  (cs.dropWhile isSpace).rdropWhile isSpace

/-- Reads the name of a property and its value. -/
def declaration? (cs : List Char) : Option (String × String) :=
  let word := cs.dropWhile isSpace
  if word.takeWhile isNameChar = [] then none
  else
    match (word.dropWhile isNameChar).dropWhile isSpace with
    | ':' :: value => some (String.ofList (word.takeWhile isNameChar), String.ofList (strip value))
    | _ => none

/-- Reads the declarations of a block from its parts between semicolons; nothing stands behind the
last semicolon. -/
def declarations? : List (List Char) → Option (List (String × String))
  | [] => some []
  | [rest] => if rest.all isSpace then some [] else none
  | part :: next :: parts =>
    (declaration? part).bind fun property => (declarations? (next :: parts)).map (property :: ·)

/-- Reads a style sheet that is one `:root` block. -/
def rootBlock? (text : String) : Option (List (String × String)) :=
  match (withoutComments text).splitOn '\x7b' with
  | [selector, rest] =>
    match rest.splitOn '\x7d' with
    | [body, behind] =>
      if strip selector = ":root".toList ∧
        behind.all isSpace = true then declarations? (body.splitOn ';') else none
    | _ => none
  | _ => none

/-- A style sheet is one comment and one `:root` block with these properties, each ended by a
semicolon. -/
structure Declares (text : String) (properties : List (String × String)) : Prop where
  openings : text.toList.count '\x7b' = 1
  closings : text.toList.count '\x7d' = 1
  ends : text.toList.count ';' = properties.length
  comments : comments text = 1
  block : rootBlock? text = some properties

theorem isNameChar_of_declaration? {cs : List Char} {property : String × String}
    (h : declaration? cs = some property) : ∀ c ∈ property.1.toList, isNameChar c = true := by
  unfold declaration? at h
  dsimp only at h
  split_ifs at h
  split at h
  case h_1 =>
    cases h
    intro c hc
    rw [String.toList_ofList] at hc
    exact List.mem_takeWhile_imp hc
  case h_2 => cases h

/-- The names that are read are made of the characters of names. -/
theorem isNameChar_of_declarations? {parts : List (List Char)} {properties : List (String × String)}
    (h : declarations? parts = some properties) :
    ∀ property ∈ properties, ∀ c ∈ property.1.toList, isNameChar c = true := by
  fun_induction declarations? parts generalizing properties with
  | case1 =>
    cases h
    exact List.forall_mem_nil _
  | case2 rest hspace =>
    cases h
    exact List.forall_mem_nil _
  | case3 rest hspace => cases h
  | case4 part next parts ih =>
    obtain ⟨property, hproperty, hrest⟩ := Option.bind_eq_some_iff.mp h
    obtain ⟨others, hothers, rfl⟩ := Option.map_eq_some_iff.mp hrest
    exact List.forall_mem_cons.mpr ⟨isNameChar_of_declaration? hproperty, ih hothers⟩

theorem isNameChar_of_rootBlock? {text : String} {properties : List (String × String)}
    (h : rootBlock? text = some properties) :
    ∀ property ∈ properties, ∀ c ∈ property.1.toList, isNameChar c = true := by
  unfold rootBlock? at h
  split at h
  · split at h
    · split_ifs at h
      exact isNameChar_of_declarations? h
    · cases h
  · cases h

/-- A name and a value come back from a declaration, whatever space stands in front of it. -/
theorem declaration?_append {space name value : List Char} (hspace : ∀ c ∈ space, isSpace c = true)
    (hne : name ≠ []) (hname : ∀ c ∈ name, isNameChar c = true)
    (hvalue : ∀ c ∈ value, isSpace c = false) :
    declaration? (space ++ name ++ ':' :: ' ' :: value) =
      some (String.ofList name, String.ofList value) := by
  obtain ⟨first, others, rfl⟩ := List.exists_cons_of_ne_nil hne
  have hword : (space ++ (first :: others) ++ ':' :: ' ' :: value).dropWhile isSpace =
      (first :: others) ++ ':' :: ' ' :: value := by
    rw [List.append_assoc, List.dropWhile_append_of_pos hspace, List.cons_append]
    apply List.dropWhile_cons_of_neg
    simp [isSpace_of_isNameChar (hname first (List.mem_cons_self ..))]
  obtain ⟨htake, hdrop⟩ := Text.run_append hname (':' :: ' ' :: value) (by simp [isNameChar])
  have hcolon : (':' :: ' ' :: value).dropWhile isSpace = ':' :: ' ' :: value := rfl
  have hstrip : strip (' ' :: value) = value := by
    have hfront : (' ' :: value).dropWhile isSpace = value := by
      rw [List.dropWhile_cons_of_pos (by decide), List.dropWhile_eq_self_iff]
      intro hlength
      simp [hvalue _ (List.getElem_mem hlength)]
    rw [strip, hfront, List.rdropWhile_eq_self_iff]
    intro hvalue'
    simp [hvalue _ (List.getLast_mem hvalue')]
  unfold declaration?
  simp only [hword, htake, hdrop, hcolon, hstrip]
  rfl

/-- A block is what stands between the braces. -/
theorem rootBlock?_eq {text : String} {selector body behind : List Char}
    (htext : withoutComments text = selector ++ '\x7b' :: (body ++ '\x7d' :: behind))
    (hselector : strip selector = ":root".toList) (hopening : '\x7b' ∉ selector)
    (hopening' : '\x7b' ∉ body) (hclosing : '\x7d' ∉ body)
    (hbehind : ∀ c ∈ behind, isSpace c = true) :
    rootBlock? text = declarations? (body.splitOn ';') := by
  have hrest : '\x7b' ∉ body ++ '\x7d' :: behind := by
    rw [List.mem_append, List.mem_cons]
    rintro (hbody | hbrace | hmem)
    · exact hopening' hbody
    · exact absurd hbrace (by decide)
    · exact notMem_of_isSpace (by decide) hbehind hmem
  unfold rootBlock?
  rw [htext, Text.splitOn_append_cons hopening, List.splitOn_eq_singleton hrest]
  dsimp only
  rw [Text.splitOn_append_cons hclosing,
    List.splitOn_eq_singleton (notMem_of_isSpace (by decide) hbehind)]
  exact if_pos ⟨hselector, List.all_eq_true.mpr hbehind⟩

/-- A block is read one declaration after another. -/
theorem declarations?_append {part rest : List Char} (h : ';' ∉ part) :
    declarations? ((part ++ ';' :: rest).splitOn ';') =
      (declaration? part).bind fun property =>
      (declarations? (rest.splitOn ';')).map (property :: ·) := by
  rw [Text.splitOn_append_cons h]
  obtain ⟨next, parts, hparts⟩ := List.exists_cons_of_ne_nil (List.splitOn_ne_nil ';' rest)
  rw [hparts]
  rfl

end DesignTokens.StyleSheet

import DesignTokens.Command.Run
import DesignTokens.Proofs.Color.Hex
import DesignTokens.Proofs.Number.Text
import DesignTokens.Proofs.Palette.Readable
import DesignTokens.Proofs.Text.UpperCase

/-!
# The style sheet of a palette

The name of a palette stands in its style sheet as it was given, once in a comment and once in each
of the eleven properties.  The command asks no more of a name than not to be blank, so that a name
can inject declarations.  `declares_properties_iff` tells which names are harmless: the style sheet
is one `:root` block that declares the eleven custom properties, and nothing else, exactly if all
characters of the name are CSS name characters.  For the other names it gives the number of braces
and semicolons, and says when there is one more comment.
-/

namespace DesignTokens

open StyleSheet

/-! ### The text -/

namespace Shade

/-- The property of a shade: its name and its value. -/
def property (paletteName : String) (shade : Shade) : String × String :=
  (s!"--color-{paletteName}-{shade.key}", shade.color.toHex)

/-- A declaration from behind the name of its palette to its semicolon. -/
def ending (shade : Shade) : List Char :=
  '-' :: (toString shade.key).toList ++ ':' :: ' ' :: shade.color.toHex.toList

theorem toList_property (name : String) (shade : Shade) :
    (shade.property name).1.toList =
      "--color-".toList ++ (name.toList ++ '-' :: (toString shade.key).toList) := by
  unfold property
  simp [toString]

theorem toList_declaration (name : String) (shade : Shade) :
    (shade.declaration name).toList =
      ' ' :: ' ' :: "--color-".toList ++ (name.toList ++ (shade.ending ++ [';', '\n'])) := by
  unfold declaration ending
  simp [toString]

/-- The declarations of shades, one after another. -/
def listing (name : String) (shades : List Shade) : List Char :=
  shades.flatMap fun shade => (shade.declaration name).toList

theorem listing_cons (name : String) (shade : Shade) (shades : List Shade) :
    listing name (shade :: shades) = (shade.declaration name).toList ++ listing name shades :=
  List.flatMap_cons

end Shade

namespace Palette

/-- The properties of a palette. -/
def properties (palette : Palette) : List (String × String) :=
  palette.shades.map (Shade.property palette.name)

end Palette

namespace TokenSet

/-- The properties of a token set. -/
def properties (set : TokenSet) : List (String × String) :=
  set.palettes.flatMap Palette.properties

theorem toList_toCss_single (hue : Float) (name : String) :
    (single hue name).toCss.toList =
      ":root \x7b\n  /* ".toList ++ ((Text.capitalize name).toList ++ (" Palette */\n".toList ++
        (Shade.listing name (Palette.generate hue name).shades ++ "\n\x7d\n".toList))) := by
  have hname : (Palette.generate hue name).name = name := rfl
  unfold toCss single Palette.declarations Shade.listing
  simp [toString, String.toList_join, hname, List.flatMap_map]

end TokenSet

/-! ### Characters -/

namespace Shade

theorem isNameChar_of_mem_lead : ∀ c ∈ "--color-".toList, isNameChar c = true :=
  List.all_eq_true.mp rfl

theorem isNameChar_of_mem_key {key : ℕ} {c : Char} (h : c ∈ (toString key).toList) :
    isNameChar c = true :=
  isNameChar_of_isDigit (Decimal.allDigits_toDigits key c (Nat.toList_repr ▸ h))

theorem mem_toHex {color : Rgb} {c : Char} (h : c ∈ color.toHex.toList) :
    isNameChar c = true ∨ c = '#' := by
  rw [Rgb.toList_toHex, List.mem_cons] at h
  rcases h with hmark | hdigit
  · exact .inr hmark
  · obtain ⟨n, hn⟩ := Rgb.exists_hexDigit?_of_mem_digits hdigit
    rw [Text.hexDigit?_eq_some_iff] at hn
    rw [isNameChar_iff]
    omega

/-- The characters of a declaration behind the name of its palette. -/
theorem mem_ending {shade : Shade} {c : Char} (h : c ∈ shade.ending) :
    isNameChar c = true ∨ c ∈ [' ', ':', '#'] := by
  rw [ending, List.mem_append, List.mem_cons, List.mem_cons, List.mem_cons] at h
  rcases h with (rfl | hkey) | rfl | rfl | hcolor
  · exact .inl (by decide)
  · exact .inl (isNameChar_of_mem_key hkey)
  · exact .inr (by decide)
  · exact .inr (by decide)
  · rcases mem_toHex hcolor with hname | rfl
    · exact .inl hname
    · exact .inr (by decide)

/-- Of the characters that cannot stand in a name, a declaration has a semicolon and a line break
besides those of the name. -/
theorem count_declaration {x : Char} (hx : isNameChar x = false) (hother : x ∉ [' ', ':', '#'])
    (name : String) (shade : Shade) :
    (shade.declaration name).toList.count x = [';', '\n'].count x + name.toList.count x := by
  have hlead : (' ' :: ' ' :: "--color-".toList).count x = 0 := by
    have hspace : x ≠ ' ' := fun h => hother (h ▸ List.mem_cons_self ..)
    rw [List.count_cons_of_ne hspace.symm, List.count_cons_of_ne hspace.symm, List.count_eq_zero]
    exact notMem_of_isNameChar hx isNameChar_of_mem_lead
  have hending : shade.ending.count x = 0 := by
    rw [List.count_eq_zero]
    intro hmem
    rcases mem_ending hmem with hname | hmem
    · rw [hname] at hx
      cases hx
    · exact hother hmem
  rw [toList_declaration, List.count_append, List.count_append, List.count_append, hlead, hending]
  omega

theorem count_listing {x : Char} (hx : isNameChar x = false) (hother : x ∉ [' ', ':', '#'])
    (name : String) (shades : List Shade) :
    (listing name shades).count x =
      shades.length * ([';', '\n'].count x + name.toList.count x) := by
  induction shades with
  | nil => exact (Nat.zero_mul _).symm
  | cons shade shades ih =>
    rw [listing_cons, List.count_append, count_declaration hx hother, ih, List.length_cons,
      Nat.succ_mul, Nat.add_comm]

end Shade

namespace TokenSet

/-- Of the characters that cannot stand in a name, a style sheet has those of its frame, those of
the frames of eleven declarations, and twelve times those of the name. -/
theorem count_toCss_single {x : Char} (hx : isNameChar x = false)
    (hother : x ∉ [' ', ':', '#']) (hue : Float) (name : String) :
    (single hue name).toCss.toList.count x =
      ":root \x7b\n  /*  Palette */\n\n\x7d\n".toList.count x + 11 * [';', '\n'].count x + 12 *
        name.toList.count x := by
  have hframe : ":root \x7b\n  /*  Palette */\n\n\x7d\n".toList =
      ":root \x7b\n  /* ".toList ++ (" Palette */\n".toList ++ "\n\x7d\n".toList) := by decide
  have hshades := Shade.count_listing hx hother name (Palette.generate hue name).shades
  rw [Palette.length_shades_generate] at hshades
  rw [toList_toCss_single, hframe]
  simp only [List.count_append]
  rw [Text.count_capitalize hx, hshades]
  omega

end TokenSet

/-! ### Comments -/

namespace Shade

theorem slash_notMem_ending (shade : Shade) : '/' ∉ shade.ending ++ [';', '\n'] := by
  rw [List.mem_append]
  rintro (hmem | hmem)
  · rcases mem_ending hmem with h | h <;> exact absurd h (by decide)
  · exact absurd hmem (by decide)

theorem commentsFrom_le_declaration (name : String) (shade : Shade) :
    commentsFrom .outside name.toList ≤ commentsFrom .outside (shade.declaration name).toList := by
  have hlead : Mode.run .outside (' ' :: ' ' :: "--color-".toList) = .outside := rfl
  rw [toList_declaration, commentsFrom_append, hlead, commentsFrom_append]
  omega

/-- A name that begins no comment leaves its declarations without one. -/
theorem commentsFrom_declaration {name : String} (h : commentsFrom .outside name.toList = 0)
    (shade : Shade) :
    commentsFrom .outside (shade.declaration name).toList = 0 ∧
      Mode.run .outside (shade.declaration name).toList = .outside := by
  have hlead : commentsFrom .outside (' ' :: ' ' :: "--color-".toList) = 0 ∧
      Mode.run .outside (' ' :: ' ' :: "--color-".toList) = .outside := ⟨rfl, rfl⟩
  have hcode := @isCode_run .outside _ rfl h
  have hslash := shade.slash_notMem_ending
  have hending :
      commentsFrom (Mode.run .outside name.toList) (shade.ending ++ [';', '\n']) = 0 := by
    apply commentsFrom_eq_zero
    · exact fun hpair => hslash (hpair.subset (List.mem_cons_self ..))
    · intro _ hhead
      cases hhead
  rw [toList_declaration, commentsFrom_append, hlead.1, hlead.2, commentsFrom_append, h, hending,
    Mode.run_append, hlead.2, Mode.run_append]
  exact ⟨rfl, run_cons_of_isCode hcode (by decide) (by decide) fun hmem =>
    hslash (List.mem_cons_of_mem _ hmem)⟩

theorem commentsFrom_listing {name : String} (h : commentsFrom .outside name.toList = 0)
    (shades : List Shade) : commentsFrom .outside (listing name shades) = 0 := by
  induction shades with
  | nil => rfl
  | cons shade shades ih =>
    obtain ⟨hfirst, hmode⟩ := commentsFrom_declaration h shade
    rw [listing_cons, commentsFrom_append, hfirst, hmode, ih]

end Shade

namespace TokenSet

/-- A style sheet has one comment, unless the name begins another. -/
theorem comments_toCss_single (hue : Float) (name : String) :
    comments (single hue name).toCss = 1 ↔ ¬['/', '*'] <:+: name.toList := by
  have hroot : commentsFrom .outside ":root \x7b\n  /* ".toList = 1 ∧
      Mode.run .outside ":root \x7b\n  /* ".toList = .inside := ⟨rfl, rfl⟩
  -- whatever a name does to the comment it stands in, there is none any more at the end of the line
  have hline : ∀ mode : Mode, commentsFrom mode " Palette */\n".toList = 0 ∧
      mode.run " Palette */\n".toList = .outside := by
    intro mode
    cases mode <;> exact ⟨rfl, rfl⟩
  have hbrace : ∀ mode : Mode, commentsFrom mode "\n\x7d\n".toList = 0 := by
    intro mode
    cases mode <;> rfl
  rw [comments, toList_toCss_single, commentsFrom_append, hroot.1, hroot.2, commentsFrom_append,
    commentsFrom_append, (hline _).1, (hline _).2, commentsFrom_append, hbrace,
    ← commentsFrom_outside_eq_zero_iff]
  constructor
  · intro hone
    obtain ⟨first, others, hshades⟩ :=
      List.exists_cons_of_length_eq_add_one (Palette.length_shades_generate hue name)
    rw [hshades, Shade.listing_cons, commentsFrom_append] at hone
    have hfirst := Shade.commentsFrom_le_declaration name first
    omega
  · intro hzero
    rw [Shade.commentsFrom_listing hzero,
      Text.commentsFrom_capitalize (commentsFrom_outside_eq_zero_iff.mp hzero)]

end TokenSet

/-! ### Declarations -/

namespace Shade

theorem isNameChar_of_mem_property {name : String} (hname : ∀ c ∈ name.toList, isNameChar c = true)
    (shade : Shade) : ∀ c ∈ (shade.property name).1.toList, isNameChar c = true := by
  rw [toList_property, List.forall_mem_append, List.forall_mem_append, List.forall_mem_cons]
  exact ⟨isNameChar_of_mem_lead, hname, by decide, fun c hc => isNameChar_of_mem_key hc⟩

theorem notMem_listing {name : String} (hname : ∀ c ∈ name.toList, isNameChar c = true) {x : Char}
    (hx : isNameChar x = false) (hother : x ∉ [' ', ':', '#', ';', '\n']) (shades : List Shade) :
    x ∉ listing name shades := by
  have hother' : x ∉ [' ', ':', '#'] ∧ x ∉ [';', '\n'] := by
    rw [← not_or, ← List.mem_append]
    exact hother
  have hcount := count_listing hx hother'.1 name shades
  rw [List.count_eq_zero_of_not_mem hother'.2,
    List.count_eq_zero_of_not_mem (notMem_of_isNameChar hx hname)] at hcount
  exact List.count_eq_zero.mp hcount

/-- A declaration has its semicolon only behind its value. -/
theorem semicolon_notMem_property {name : String} (hname : ∀ c ∈ name.toList, isNameChar c = true)
    (shade : Shade) {space : List Char} (hspace : ∀ c ∈ space, isSpace c = true) :
    ';' ∉ space ++ (shade.property name).1.toList ++ ':' :: ' ' :: shade.color.toHex.toList := by
  rw [List.mem_append, List.mem_append]
  rintro ((hmem | hmem) | hmem)
  · exact notMem_of_isSpace (by decide) hspace hmem
  · exact notMem_of_isNameChar (by decide) (isNameChar_of_mem_property hname shade) hmem
  · rcases mem_ending (List.mem_append_right _ hmem) with h | h <;> exact absurd h (by decide)

/-- The declarations of shades are read back as their properties. -/
theorem declarations?_listing {name : String} (hname : ∀ c ∈ name.toList, isNameChar c = true)
    (shades : List Shade) {space : List Char} (hspace : ∀ c ∈ space, isSpace c = true) :
    declarations? ((space ++ (listing name shades ++ ['\n'])).splitOn ';') =
      some (shades.map (property name)) := by
  induction shades generalizing space with
  | nil =>
    have hbody : ∀ c ∈ space ++ ['\n'], isSpace c = true := by
      rw [List.forall_mem_append]
      exact ⟨hspace, List.all_eq_true.mp rfl⟩
    show declarations? ((space ++ ['\n']).splitOn ';') = some []
    rw [List.splitOn_eq_singleton (notMem_of_isSpace (by decide) hbody)]
    exact if_pos (List.all_eq_true.mpr hbody)
  | cons shade shades ih =>
    have htext : space ++ (listing name (shade :: shades) ++ ['\n']) =
        ((space ++ [' ', ' ']) ++ (shade.property name).1.toList ++ ':' :: ' ' ::
          shade.color.toHex.toList) ++
          ';' :: (['\n'] ++ (listing name shades ++ ['\n'])) := by
      rw [listing_cons, toList_declaration, toList_property, ending]
      simp
    have hspace' : ∀ c ∈ space ++ [' ', ' '], isSpace c = true := by
      rw [List.forall_mem_append]
      exact ⟨hspace, List.all_eq_true.mp rfl⟩
    have hbreak : ∀ c ∈ ['\n'], isSpace c = true := List.all_eq_true.mp rfl
    have hproperty := isNameChar_of_mem_property hname shade
    have hne : (shade.property name).1.toList ≠ [] := by
      rw [toList_property]
      exact List.cons_ne_nil _ _
    have hvalue : ∀ c ∈ shade.color.toHex.toList, isSpace c = false := by
      intro c hc
      rcases mem_toHex hc with hc | rfl
      · exact isSpace_of_isNameChar hc
      · decide
    rw [htext, declarations?_append (semicolon_notMem_property hname shade hspace'),
      declaration?_append hspace' hne hproperty hvalue, String.ofList_toList,
      String.ofList_toList, ih hbreak]
    rfl

end Shade

namespace TokenSet

theorem properties_single (hue : Float) (name : String) :
    (single hue name).properties = (Palette.generate hue name).shades.map (Shade.property name) :=
  List.append_nil _

/-- Without its comment, the style sheet under a plain name is one block. -/
theorem withoutComments_toCss_single {name : String}
    (hname : ∀ c ∈ name.toList, isNameChar c = true) (hue : Float) :
    withoutComments (single hue name).toCss =
      ":root ".toList ++ '\x7b' :: (("\n   \n".toList ++
        (Shade.listing name (Palette.generate hue name).shades ++ ['\n'])) ++
          '\x7d' :: ['\n']) := by
  have hroot : bareFrom .outside ":root \x7b\n  /* ".toList = ":root \x7b\n   ".toList ∧
      Mode.run .outside ":root \x7b\n  /* ".toList = .inside := ⟨rfl, rfl⟩
  have hline : bareFrom .inside " Palette */\n".toList = ['\n'] ∧
      Mode.run .inside " Palette */\n".toList = .outside := ⟨rfl, rfl⟩
  have hslash :
      '/' ∉ Shade.listing name (Palette.generate hue name).shades ++ "\n\x7d\n".toList := by
    rw [List.mem_append]
    rintro (hmem | hmem)
    · exact Shade.notMem_listing hname (by decide) (by decide) _ hmem
    · exact absurd hmem (by decide)
  obtain ⟨hcomment, hmode⟩ :=
    bareFrom_inside (notMem_of_isNameChar (by decide) (Text.isNameChar_of_mem_capitalize hname))
  obtain ⟨hdeclarations, hend⟩ := bareFrom_outside hslash
  rw [withoutComments, toList_toCss_single, bareFrom_append, hroot.1, hroot.2, bareFrom_append,
    hcomment, hmode, bareFrom_append, hline.1, hline.2, hdeclarations, Mode.run_append, hroot.2,
    Mode.run_append, hmode, Mode.run_append, hline.2, hend]
  simp

theorem rootBlock?_toCss_single {name : String} (hname : ∀ c ∈ name.toList, isNameChar c = true)
    (hue : Float) : rootBlock? (single hue name).toCss = some (single hue name).properties := by
  have hspace : ∀ c ∈ "\n   \n".toList, isSpace c = true := List.all_eq_true.mp rfl
  have hbody :
      ∀ {x : Char}, isNameChar x = false → x ∉ [' ', ':', '#', ';', '\n'] → x ∉ "\n   \n".toList ++
      (Shade.listing name (Palette.generate hue name).shades ++ ['\n']) := by
    intro x hx hother hmem
    rw [List.mem_append, List.mem_append] at hmem
    rcases hmem with hmem | hmem | hmem
    · obtain rfl | rfl | rfl : x = '\n' ∨ x = ' ' ∨ x = '\n' := by simpa using hmem
      all_goals exact hother (by decide)
    · exact Shade.notMem_listing hname hx hother _ hmem
    · obtain rfl := List.mem_singleton.mp hmem
      exact hother (by decide)
  rw [rootBlock?_eq (withoutComments_toCss_single hname hue) (by decide) (by decide)
    (hbody (by decide) (by decide))
    (hbody (by decide) (by decide)) (List.all_eq_true.mp rfl), properties_single]
  exact Shade.declarations?_listing hname _ hspace

theorem requestedSet_some (hue : Float) {name : String} (hname : Text.trim name ≠ "") :
    requestedSet hue (some name) = .ok (single hue (Text.trim name)) := by
  have hempty : ¬(Text.trim name).isEmpty = true := mt String.isEmpty_iff.mp hname
  unfold requestedSet
  dsimp only
  rw [if_neg hempty]

theorem map_fst_properties_single (hue : Float) (name : String) :
    (single hue name).properties.map Prod.fst = Shade.keys.map fun key =>
      s!"--color-{name}-{key}" := by
  rw [properties_single, List.map_map,
    ← Palette.keys_ramp (PaletteKind.ofPaletteName name) (normalizeHue hue), List.map_map]
  rfl

/-- The names that are read from a style sheet hold the name of its palette. -/
theorem isNameChar_of_declares {hue : Float} {name : String}
    (h : Declares (single hue name).toCss (single hue name).properties) :
    ∀ c ∈ name.toList, isNameChar c = true := by
  obtain ⟨first, others, hshades⟩ :=
    List.exists_cons_of_length_eq_add_one (Palette.length_shades_generate hue name)
  have hread := isNameChar_of_rootBlock? h.block
  rw [properties_single, hshades, List.map_cons, List.forall_mem_cons,
    Shade.toList_property] at hread
  intro c hc
  exact hread.1 c (List.mem_append_right _ (List.mem_append_left _ hc))

/-- Every name that is not blank gives a set with a property for each key.  Its style sheet has one
pair of braces, eleven semicolons and one comment, besides what the name brings along in twelve
places; and what it declares is these properties, in one block, exactly if the name is made of
characters of names. -/
theorem declares_properties_iff (hue : Float) {name : String} (hname : Text.trim name ≠ "") :
    ∃ set, requestedSet hue (some name) = .ok set ∧
      set.properties.map Prod.fst = Shade.keys.map (fun key => s!"--color-{Text.trim name}-{key}") ∧
      set.toCss.toList.count '\x7b' = 1 + 12 * (Text.trim name).toList.count '\x7b' ∧
      set.toCss.toList.count '\x7d' = 1 + 12 * (Text.trim name).toList.count '\x7d' ∧
      set.toCss.toList.count ';' = 11 + 12 * (Text.trim name).toList.count ';' ∧
      (comments set.toCss = 1 ↔ ¬['/', '*'] <:+: (Text.trim name).toList) ∧
      (Declares set.toCss set.properties ↔ ∀ c ∈ (Text.trim name).toList, isNameChar c = true) := by
  have hopenings := count_toCss_single (x := '\x7b') (by decide) (by decide) hue (Text.trim name)
  have hclosings := count_toCss_single (x := '\x7d') (by decide) (by decide) hue (Text.trim name)
  have hends := count_toCss_single (x := ';') (by decide) (by decide) hue (Text.trim name)
  have hcomments := comments_toCss_single hue (Text.trim name)
  refine ⟨_, requestedSet_some hue hname, map_fst_properties_single hue _, hopenings, hclosings,
    hends, hcomments, isNameChar_of_declares, ?_⟩
  intro hchars
  have hnone : ∀ {x : Char}, isNameChar x = false → (Text.trim name).toList.count x = 0 := fun hx =>
    List.count_eq_zero.mpr (notMem_of_isNameChar hx hchars)
  exact
    { openings := by
        rw [hopenings, hnone (by decide)]
        rfl
      closings := by
        rw [hclosings, hnone (by decide)]
        rfl
      ends := by
        rw [hends, hnone (by decide), properties_single, List.length_map,
        Palette.length_shades_generate]
        rfl
      comments := hcomments.mpr fun hpair =>
        notMem_of_isNameChar (by decide) hchars (hpair.subset (List.mem_cons_self ..))
      block := rootBlock?_toCss_single hchars hue }

/-- A semicolon in the name ends a declaration too early, eleven times over. -/
theorem declares_properties_iff_semicolon :
    Text.trim " a;b" ≠ "" ∧ ∃ set,
      requestedSet 220.0 (some " a;b") = .ok set ∧ set.toCss.toList.count ';' = 23 ∧
      ¬Declares set.toCss set.properties := by
  have hname : Text.trim " a;b" ≠ "" := by decide
  have htrim : Text.trim " a;b" = "a;b" := by decide
  obtain ⟨set, hset, -, -, -, hends, -, hdeclares⟩ := declares_properties_iff 220.0 hname
  rw [htrim] at hends hdeclares
  refine ⟨hname, set, hset, hends, ?_⟩
  intro h
  exact absurd (hdeclares.mp h ';' (by decide)) (by decide)

end TokenSet

end DesignTokens

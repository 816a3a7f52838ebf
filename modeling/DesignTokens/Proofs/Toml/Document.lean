import DesignTokens.Proofs.Datum
import DesignTokens.Proofs.Toml.Value

/-!
# Written documents are read back

`read?` is a left inverse of `write` on documents of tables (`read?_write`) with bare keys, without
duplicates, and with values that TOML has.  The lines of the text give the statements of the
sections in order, and the statements build their tables.
-/

namespace DesignTokens.Toml

/-! ### Keys -/

/-- A key that is written without quotes. -/
structure IsBareKey (key : String) : Prop where
  ne_nil : key.toList ≠ []
  bare : ∀ c ∈ key.toList, isBare c = true

instance (key : String) : Decidable (IsBareKey key) :=
  decidable_of_iff (key.toList ≠ [] ∧ key.toList.all isBare = true)
    ⟨fun ⟨hne, hbare⟩ => ⟨hne, List.all_eq_true.mp hbare⟩,
      fun ⟨hne, hbare⟩ => ⟨hne, List.all_eq_true.mpr hbare⟩⟩

theorem isAtom_of_isBare {c : Char} (h : isBare c = true) : isAtom c = true := by
  simp only [isBare, Bool.or_eq_true] at h
  rcases h with (h | h) | h <;> simp [isAtom, h]

theorem IsBareKey.exists_cons {key : String} (hkey : IsBareKey key) :
    ∃ c cs, key.toList = c :: cs ∧ isAtom c = true := by
  obtain ⟨c, cs, hcs⟩ := List.exists_cons_of_ne_nil hkey.ne_nil
  exact ⟨c, cs, hcs, isAtom_of_isBare (hkey.bare c (by rw [hcs]; exact List.mem_cons_self ..))⟩

theorem skipBlanks_of_isAtom {c : Char} (hc : isAtom c = true) (cs : List Char) :
    skipBlanks (c :: cs) = c :: cs := by
  have hblank : isBlank c = false := by
    simp [isBlank, ne_of_isAtom hc (show isAtom ' ' = false by decide),
      ne_of_isAtom hc (show isAtom '\t' = false by decide)]
  simp [skipBlanks, hblank]

theorem readKey_bare {key : String} (hkey : IsBareKey key) {rest : List Char}
    (hrest : ∀ c ∈ rest.head?, isBare c = false) :
    readKey (key.toList ++ rest) = some (key, rest) := by
  obtain ⟨c, cs, hcs, hc⟩ := hkey.exists_cons
  obtain ⟨htake, hdrop⟩ := Text.run_append hkey.bare rest hrest
  -- a bare key does not begin with a quote
  unfold readKey
  split
  case h_1 heq =>
    rw [hcs] at heq
    exact absurd (List.cons.inj heq).1 (ne_of_isAtom hc (by decide))
  case h_2 heq =>
    rw [hcs] at heq
    exact absurd (List.cons.inj heq).1 (ne_of_isAtom hc (by decide))
  case h_3 =>
    rw [htake, hdrop]
    split
    case h_1 hnil => exact absurd hnil hkey.ne_nil
    case h_2 => rw [String.ofList_toList]

/-- A bare key is a path of one part, if no dot follows. -/
theorem readPath_bare {key : String} (hkey : IsBareKey key) (fuel : ℕ) {rest : List Char}
    (hrest : ∀ c ∈ rest.head?, isBare c = false) (hpoint : (skipBlanks rest).head? ≠ some '.') :
    readPath (fuel + 1) (key.toList ++ rest) = some ([key], skipBlanks rest) := by
  obtain ⟨c, cs, hcs, hc⟩ := hkey.exists_cons
  have hskip : skipBlanks (key.toList ++ rest) = key.toList ++ rest := by
    rw [hcs, List.cons_append, skipBlanks_of_isAtom hc]
  unfold readPath
  rw [hskip, readKey_bare hkey hrest]
  dsimp only
  split
  case h_1 heq =>
    rw [heq] at hpoint
    exact absurd rfl hpoint
  case h_2 => rfl

/-! ### Lines -/

/-- A line that is read as a statement. -/
structure IsLine (text : List Char) (statement : Statement) : Prop where
  opening : ∃ c cs, text = c :: cs ∧ isOpening c = true
  reads : ∀ rest, readStatement (text ++ '\n' :: rest) = some (statement, '\n' :: rest)

theorem isLine_header {name : String} (hname : IsBareKey name) :
    IsLine ('[' :: (name.toList ++ [']'])) (.header [] name) := by
  refine ⟨⟨'[', _, rfl, by decide⟩, fun rest => ?_⟩
  obtain ⟨c, cs, hcs, hc⟩ := hname.exists_cons
  have htext :
      '[' :: (name.toList ++ [']']) ++ '\n' :: rest =
        '[' :: (name.toList ++ ']' :: '\n' :: rest) := by simp
  have hpath := readPath_bare hname (name.toList ++ ']' :: '\n' :: rest).length
    (show ∀ c ∈ (']' :: '\n' :: rest).head?, isBare c = false by simp; decide)
    (by simp [skipBlanks, isBlank])
  have hskip : skipBlanks (']' :: '\n' :: rest) = ']' :: '\n' :: rest := by
    simp [skipBlanks, isBlank]
  rw [hskip] at hpath
  rw [htext]
  unfold readStatement
  split
  case h_1 heq =>
    rw [hcs] at heq
    exact absurd (List.cons.inj (List.cons.inj heq).2).1 (ne_of_isAtom hc (by decide))
  case h_2 _ heq =>
    obtain rfl := (List.cons.inj heq).2
    rw [hpath]
    rfl
  case h_3 h => exact absurd rfl (h (name.toList ++ ']' :: '\n' :: rest))

theorem isLine_entry {key : String} (hkey : IsBareKey key) {datum : Datum}
    (hdatum : Writable maxNesting datum) :
    IsLine (key.toList ++ " = ".toList ++ value datum) (.entry [key] datum) := by
  obtain ⟨c, cs, hcs, hc⟩ := hkey.exists_cons
  refine ⟨⟨c, cs ++ " = ".toList ++ value datum, by rw [hcs]; rfl, isOpening_of_isAtom hc⟩,
    fun rest => ?_⟩
  obtain ⟨⟨d, ds, hds, hd⟩, hreads⟩ := written_value hdatum
  have htext : key.toList ++ " = ".toList ++ value datum ++ '\n' :: rest =
      key.toList ++ ' ' :: '=' :: ' ' :: (value datum ++ '\n' :: rest) := by simp
  -- the parts of the line as they are read: the key, the mark and the value up to the line break
  have hskip : skipBlanks (' ' :: (value datum ++ '\n' :: rest)) = value datum ++ '\n' :: rest := by
    have hblank : isBlank d = false := by
      simp only [isOpening, Bool.not_eq_true', Bool.or_eq_false_iff] at hd
      exact hd.1.1.2
    simp [skipBlanks, hds, hblank, show isBlank ' ' = true by decide]
  have hpath := readPath_bare hkey
    (key.toList ++ ' ' :: '=' :: ' ' :: (value datum ++ '\n' :: rest)).length
    (show ∀ c ∈ (' ' :: '=' :: ' ' :: (value datum ++ '\n' :: rest)).head?,
      isBare c = false by simp; decide)
    (by simp [skipBlanks, isBlank])
  have hequals : skipBlanks (' ' :: '=' :: ' ' :: (value datum ++ '\n' :: rest)) =
      '=' :: ' ' :: (value datum ++ '\n' :: rest) := by simp [skipBlanks, isBlank]
  rw [hequals] at hpath
  have hvalue := hreads (2 * (' ' :: (value datum ++ '\n' :: rest)).length + 2) ('\n' :: rest)
    (by simp only [List.length_cons, List.length_append]; omega) ⟨'\n', rest, rfl, by decide⟩
  rw [htext]
  unfold readStatement
  split
  case h_1 heq =>
    rw [hcs] at heq
    exact absurd (List.cons.inj heq).1 (ne_of_isAtom hc (by decide))
  case h_2 heq =>
    rw [hcs] at heq
    exact absurd (List.cons.inj heq).1 (ne_of_isAtom hc (by decide))
  case h_3 =>
    rw [hpath]
    simp only [Option.bind_eq_bind, Option.bind_some]
    rw [hskip, hvalue]
    rfl

/-! ### Texts of lines -/

/-- A text that is read as a list of statements. -/
def Reads (text : List Char) (statements : List Statement) : Prop :=
  ∀ fuel, text.length < fuel → readStatements fuel text = some statements

theorem reads_nil : Reads [] [] := by
  intro fuel hfuel
  obtain ⟨fuel, rfl⟩ := Nat.exists_eq_succ_of_ne_zero (by omega : fuel ≠ 0)
  rfl

theorem reads_line {line text : List Char} {statement : Statement} {statements : List Statement}
    (hline : IsLine line statement) (htext : Reads text statements) :
    Reads (line ++ '\n' :: text) (statement :: statements) := by
  intro fuel hfuel
  obtain ⟨fuel, rfl⟩ := Nat.exists_eq_succ_of_ne_zero (by omega : fuel ≠ 0)
  obtain ⟨⟨c, cs, rfl, hc⟩, hreads⟩ := hline
  have hrest : readStatements fuel text = some statements := htext fuel (by
    simp only [List.length_append, List.length_cons] at hfuel
    omega)
  have hstatement := hreads text
  rw [List.cons_append] at hstatement ⊢
  unfold readStatements
  rw [skipLayout_opening hc]
  dsimp only
  rw [hstatement]
  have hend : endLine? ('\n' :: text) = some text := rfl
  dsimp only
  rw [hend]
  dsimp only
  rw [hrest]
  rfl

theorem reads_blank {text : List Char} {statements : List Statement}
    (htext : Reads text statements) : Reads ('\n' :: text) statements := by
  intro fuel hfuel
  obtain ⟨fuel, rfl⟩ := Nat.exists_eq_succ_of_ne_zero (by omega : fuel ≠ 0)
  rw [← htext (fuel + 1) (by simp only [List.length_cons] at hfuel; omega)]
  rfl

/-! ### Sections -/

/-- Fields that can be written: bare keys, without duplicates, with values that TOML has. -/
structure WritableFields (fields : List (String × Datum)) : Prop where
  bare : ∀ field ∈ fields, IsBareKey field.1
  writable : ∀ field ∈ fields, Writable maxNesting field.2
  nodup : (fields.map Prod.fst).Nodup

/-- Tables that can be written: bare names, without duplicates, with fields that can be written. -/
structure WritableSections (sections : List (String × List (String × Datum))) : Prop where
  bare : ∀ part ∈ sections, IsBareKey part.1
  writable : ∀ part ∈ sections, WritableFields part.2
  nodup : (sections.map Prod.fst).Nodup

/-- The statements of the fields of a section. -/
def fieldStatements (fields : List (String × Datum)) : List Statement :=
  fields.map fun (key, datum) => .entry [key] datum

/-- The statements of a section. -/
def sectionStatements (name : String) (fields : List (String × Datum)) : List Statement :=
  .header [] name :: fieldStatements fields

theorem reads_entries {text : List Char} {statements : List Statement}
    (htext : Reads text statements) (fields : List (String × Datum))
    (hbare : ∀ field ∈ fields, IsBareKey field.1)
    (hwritable : ∀ field ∈ fields, Writable maxNesting field.2) :
    Reads ((fields.flatMap fun (key, datum) => entry key datum) ++ text)
      (fieldStatements fields ++ statements) := by
  induction fields with
  | nil => exact htext
  | cons field fields ih =>
    obtain ⟨key, datum⟩ := field
    have hline := isLine_entry (hbare _ (List.mem_cons_self ..))
      (hwritable _ (List.mem_cons_self ..))
    have hrest := ih (fun field hfield => hbare field (List.mem_cons_of_mem _ hfield))
      (fun field hfield => hwritable field (List.mem_cons_of_mem _ hfield))
    simpa [entry, fieldStatements] using reads_line hline hrest

theorem reads_section {text : List Char} {statements : List Statement}
    (htext : Reads text statements) {name : String} (hname : IsBareKey name)
    {fields : List (String × Datum)} (hfields : WritableFields fields) :
    Reads (writeSection name fields ++ text) (sectionStatements name fields ++ statements) := by
  have hrest := reads_entries htext fields hfields.bare hfields.writable
  simpa [writeSection, sectionStatements] using reads_line (isLine_header hname) hrest

/-- The text of a document has the statements of its sections. -/
theorem reads_sections {sections : List (String × List (String × Datum))}
    (h : WritableSections sections) :
    Reads (['\n'].intercalate (sections.map fun (name, fields) => writeSection name fields))
      (sections.flatMap fun (name, fields) => sectionStatements name fields) := by
  obtain ⟨hbare, hwritable, -⟩ := h
  induction sections with
  | nil => exact reads_nil
  | cons part sections ih =>
    obtain ⟨name, fields⟩ := part
    have hname := hbare _ (List.mem_cons_self ..)
    have hfields := hwritable _ (List.mem_cons_self ..)
    have hrest := ih (fun part hpart => hbare part (List.mem_cons_of_mem _ hpart))
      (fun part hpart => hwritable part (List.mem_cons_of_mem _ hpart))
    cases sections with
    | nil => simpa using reads_section reads_nil hname hfields
    | cons next sections =>
      rw [List.map_cons, List.map_cons, List.intercalate_cons_cons, List.append_assoc,
        List.flatMap_cons]
      exact reads_section (reads_blank hrest) hname hfields

/-! ### Tables -/

theorem lookup_last {α : Type} {key : String} {front : List (String × α)}
    (h : key ∉ front.map Prod.fst) (a : α) : (front ++ [(key, a)]).lookup key = some a := by
  rw [List.lookup_append, Datum.lookup_of_fresh h, List.lookup_cons_self]
  rfl

theorem put_last {α : Type} {key : String} {front : List (String × α)}
    (h : key ∉ front.map Prod.fst) (a b : α) :
    Datum.put key b (front ++ [(key, a)]) = front ++ [(key, b)] := by
  induction front with
  | nil => simp [Datum.put]
  | cons field front ih =>
    simp only [List.map_cons, List.mem_cons, not_or] at h
    rw [List.cons_append, Datum.put, if_neg (Ne.symm h.1), ih h.2, List.cons_append]

/-- The parts of the tree that the fields of a section become. -/
def leaves (fields : List (String × Datum)) : Fields :=
  fields.map fun (key, datum) => (key, .leaf datum)

/-- The document after a section: its table stands last and takes the entries that follow. -/
def withSection (front : Fields) (name : String) (inner : Fields) : Building :=
  ⟨front ++ [(name, .branch .header inner)], [name]⟩

theorem add_header {building : Building} {name : String}
    (hname : name ∉ building.fields.map Prod.fst) :
    building.add (.header [] name) = some (withSection building.fields name []) := by
  have hopen : Fields.openTable name building.fields =
      some (building.fields ++ [(name, .branch .header [])]) := by
    unfold Fields.openTable
    rw [Datum.lookup_of_fresh hname]
    dsimp only
    rw [Datum.put_of_fresh hname]
  rw [Building.add, Fields.alter, hopen]
  rfl

theorem add_entry {front inner : Fields} {name key : String} (hname : name ∉ front.map Prod.fst)
    (hkey : key ∉ inner.map Prod.fst) (datum : Datum) :
    (withSection front name inner).add (.entry [key] datum) =
      some (withSection front name (inner ++ [(key, .leaf datum)])) := by
  have henter : Fields.enter datum [key] inner = some (inner ++ [(key, .leaf datum)]) := by
    unfold Fields.enter
    rw [Datum.lookup_of_fresh hkey]
  unfold withSection Building.add
  dsimp only
  unfold Fields.alter
  rw [lookup_last hname]
  dsimp only
  rw [Fields.alter, henter]
  simp only [Option.map_some, put_last hname]

theorem foldlM_entries {front : Fields} {name : String} (hname : name ∉ front.map Prod.fst)
    {fields : List (String × Datum)} (inner : Fields)
    (hnodup : (inner.map Prod.fst ++ fields.map Prod.fst).Nodup) :
    (fieldStatements fields).foldlM Building.add (withSection front name inner) =
      some (withSection front name (inner ++ leaves fields)) := by
  induction fields generalizing inner with
  | nil => simp [fieldStatements, leaves]
  | cons field fields ih =>
    obtain ⟨key, datum⟩ := field
    have hkey : key ∉ inner.map Prod.fst := by
      intro hmem
      exact (List.nodup_append.mp hnodup).2.2 key hmem key (List.mem_cons_self ..) rfl
    have hrest := ih (inner ++ [(key, .leaf datum)]) (by simpa using hnodup)
    simp only [fieldStatements, List.map_cons, List.foldlM_cons, add_entry hname hkey]
    simpa [fieldStatements, leaves] using hrest

theorem foldlM_section {building : Building} {name : String}
    (hname : name ∉ building.fields.map Prod.fst) {fields : List (String × Datum)}
    (hnodup : (fields.map Prod.fst).Nodup) :
    (sectionStatements name fields).foldlM Building.add building =
      some (withSection building.fields name (leaves fields)) := by
  rw [sectionStatements, List.foldlM_cons, add_header hname]
  exact foldlM_entries hname [] (by simpa using hnodup)

/-- The parts of the tree that sections become. -/
def branches (sections : List (String × List (String × Datum))) : Fields :=
  sections.map fun (name, fields) => (name, .branch .header (leaves fields))

theorem foldlM_sections {sections : List (String × List (String × Datum))} (building : Building)
    (hfields : ∀ part ∈ sections, (part.2.map Prod.fst).Nodup)
    (hnodup : (building.fields.map Prod.fst ++ sections.map Prod.fst).Nodup) :
    ∃ current, (sections.flatMap fun (name, fields) => sectionStatements name fields).foldlM
      Building.add building =
      some ⟨building.fields ++ branches sections, current⟩ := by
  induction sections generalizing building with
  | nil => exact ⟨building.current, by simp [branches]⟩
  | cons part sections ih =>
    obtain ⟨name, fields⟩ := part
    have hname : name ∉ building.fields.map Prod.fst := by
      intro hmem
      exact (List.nodup_append.mp hnodup).2.2 name hmem name (List.mem_cons_self ..) rfl
    have hsection := foldlM_section hname (hfields _ (List.mem_cons_self ..))
    obtain ⟨current, hrest⟩ := ih (withSection building.fields name (leaves fields))
      (fun part hpart => hfields part (List.mem_cons_of_mem _ hpart))
      (by simpa [withSection] using hnodup)
    refine ⟨current, ?_⟩
    rw [List.flatMap_cons, List.foldlM_append, hsection]
    simpa [withSection, branches] using hrest

theorem fieldData_leaves (fields : List (String × Datum)) :
    Node.fieldData (leaves fields) = fields := by
  induction fields with
  | nil => rfl
  | cons field fields ih =>
    rw [leaves, List.map_cons, Node.fieldData, Node.toDatum]
    exact congrArg _ ih

theorem fieldData_branches (sections : List (String × List (String × Datum))) :
    Node.fieldData (branches sections) = sections.map fun (name, fields) =>
    (name, .table fields) := by
  induction sections with
  | nil => rfl
  | cons part sections ih =>
    rw [branches, List.map_cons, Node.fieldData, Node.toDatum, fieldData_leaves]
    exact congrArg _ ih

theorem build?_sections {sections : List (String × List (String × Datum))}
    (h : WritableSections sections) :
    build? (sections.flatMap fun (name, fields) => sectionStatements name fields) =
      some (.table (sections.map fun (name, fields) => (name, .table fields))) := by
  obtain ⟨current, hfold⟩ := foldlM_sections Building.empty
    (fun part hpart => (h.writable part hpart).nodup) h.nodup
  rw [build?, hfold]
  simp only [Building.empty, List.nil_append, Option.map_some, fieldData_branches]

/-- Reading a written document gives its sections as tables. -/
theorem read?_write {sections : List (String × List (String × Datum))}
    (h : WritableSections sections) :
    read? (write sections) =
      some (.table (sections.map fun (name, fields) => (name, .table fields))) := by
  have hmark :
      dropByteOrderMark
        (['\n'].intercalate (sections.map fun (name, fields) => writeSection name fields)) =
      ['\n'].intercalate (sections.map fun (name, fields) => writeSection name fields) := by
    cases sections with
    | nil => rfl
    | cons part sections => cases sections <;> rfl
  unfold read? write
  dsimp only
  rw [String.toList_ofList, hmark, reads_sections h _ (Nat.lt_succ_self _), Option.bind_some,
    build?_sections h]

end DesignTokens.Toml

import DesignTokens.Datum
import Mathlib.Data.List.Induction
import Mathlib.Data.List.Nodup

/-!
# Tables with one value for each key

Setting a key changes what is looked up under it and nothing else, and it adds the key behind the
others unless it is there (`lookup_put`, `keys_put`).  So the fields collected from pairs have each
key once, in the order in which the keys first occur (`keys_collect`), with the value of its last
pair (`lookup_collect`).  Pairs that have no key twice are collected as they stand
(`collect_eq_self`).
-/

namespace DesignTokens.Datum

/-! ### First occurrences -/

section FirstOccurrences

variable {α β : Type} [DecidableEq α] [DecidableEq β]

theorem eraseDups_append_singleton (xs : List α) (x : α) :
    (xs ++ [x]).eraseDups = if x ∈ xs then xs.eraseDups else xs.eraseDups ++ [x] := by
  rw [List.eraseDups_append]
  by_cases hmem : x ∈ xs
  · simp [List.removeAll, hmem]
  · simp [List.removeAll, hmem, List.eraseDups_cons]

theorem eraseDups_map {f : α → β} (hf : Function.Injective f) (xs : List α) :
    (xs.map f).eraseDups = xs.eraseDups.map f := by
  induction xs using List.reverseRecOn with
  | nil => rfl
  | append_singleton xs x ih =>
    rw [List.map_append, List.map_singleton, eraseDups_append_singleton,
      eraseDups_append_singleton, ih, apply_ite (List.map f), List.map_append, List.map_singleton]
    exact if_congr (List.mem_map_of_injective hf) rfl rfl

end FirstOccurrences

variable {α : Type}

/-! ### Setting a key -/

theorem keys_put (key : String) (value : α) (fields : List (String × α)) :
    (put key value fields).map Prod.fst =
      if key ∈ fields.map Prod.fst then fields.map Prod.fst else fields.map Prod.fst ++ [key] := by
  induction fields with
  | nil => rfl
  | cons field fields ih =>
    obtain ⟨k, v⟩ := field
    rw [put]
    by_cases hk : k = key
    · simp [hk]
    · rw [if_neg hk, List.map_cons, ih]
      by_cases hmem : key ∈ fields.map Prod.fst
      · rw [if_pos hmem, List.map_cons, if_pos (List.mem_cons_of_mem _ hmem)]
      · rw [if_neg hmem, List.map_cons, if_neg (by simpa [Ne.symm hk] using hmem), List.cons_append]

theorem lookup_cons (key key' : String) (value : α) (fields : List (String × α)) :
    ((key, value) :: fields).lookup key' = if key' = key then some value
      else fields.lookup key' := by
  rw [List.lookup_cons]
  by_cases h : key' = key
  · simp [h]
  · rw [if_neg h, beq_false_of_ne h]

theorem lookup_put (key key' : String) (value : α) (fields : List (String × α)) :
    (put key value fields).lookup key' = if key' = key then some value else fields.lookup key' := by
  induction fields with
  | nil => rw [put, lookup_cons]
  | cons field fields ih =>
    obtain ⟨k, v⟩ := field
    rw [put]
    by_cases hk : k = key
    · rw [if_pos hk, lookup_cons, lookup_cons, hk]
      split_ifs <;> rfl
    · rw [if_neg hk, lookup_cons, lookup_cons, ih]
      by_cases h : key' = k
      · simp [h, hk]
      · simp [h]

theorem lookup_of_fresh {key : String} {fields : List (String × α)}
    (h : key ∉ fields.map Prod.fst) : fields.lookup key = none := by
  rw [List.lookup_eq_none_iff]
  intro field hfield
  rw [bne_iff_ne]
  rintro rfl
  exact h (List.mem_map_of_mem hfield)

/-- A value is looked up under its key if the key stands only once. -/
theorem lookup_of_mem {key : String} {value : α} {fields : List (String × α)}
    (h : (fields.map Prod.fst).count key ≤ 1) (hmem : (key, value) ∈ fields) :
    fields.lookup key = some value := by
  induction fields with
  | nil => cases hmem
  | cons field fields ih =>
    obtain ⟨k, v⟩ := field
    rw [List.map_cons, List.count_cons] at h
    rw [lookup_cons]
    by_cases hk : key = k
    · -- here the key has its one place
      have hrest : key ∉ fields.map Prod.fst := by
        rw [← List.count_eq_zero]
        simp only [hk, beq_self_eq_true, if_true] at h ⊢
        omega
      rcases List.mem_cons.mp hmem with heq | hmem
      · obtain ⟨-, rfl⟩ := Prod.mk.inj heq
        rw [if_pos hk]
      · exact absurd (List.mem_map_of_mem hmem) hrest
    · rw [if_neg hk]
      rcases List.mem_cons.mp hmem with heq | hmem
      · exact absurd (Prod.mk.inj heq).1 hk
      · exact ih (by omega) hmem

theorem put_of_fresh {key : String} {fields : List (String × α)}
    (h : key ∉ fields.map Prod.fst) (value : α) :
    put key value fields = fields ++ [(key, value)] := by
  induction fields with
  | nil => rfl
  | cons field fields ih =>
    simp only [List.map_cons, List.mem_cons, not_or] at h
    rw [put, if_neg (Ne.symm h.1), ih h.2, List.cons_append]

/-! ### Tables made from lists -/

section Members

variable {β : Type} {key : β → String} {xs : List β}

/-- In a table made from a list, what stands under a key comes from the first member with that
key. -/
theorem lookup_map_eq_find? (key : β → String) (value : β → α) (xs : List β) (k : String) :
    (xs.map fun x => (key x, value x)).lookup k = (xs.find? (key · == k)).map value := by
  induction xs with
  | nil => rfl
  | cons x xs ih =>
    rw [List.map_cons, lookup_cons, ih, List.find?_cons]
    by_cases h : k = key x
    · simp [h]
    · rw [if_neg h, beq_false_of_ne (Ne.symm h)]

/-- Where no two members have the same key, the last member with a key is the first one. -/
theorem find?_reverse_of_nodup (h : (xs.map key).Nodup) (k : String) :
    xs.reverse.find? (key · == k) = xs.find? (key · == k) := by
  induction xs with
  | nil => rfl
  | cons x xs ih =>
    rw [List.map_cons, List.nodup_cons] at h
    rw [List.reverse_cons, List.find?_append, ih h.2]
    by_cases hk : key x = k
    · have hrest : xs.find? (key · == k) = none := by
        rw [List.find?_eq_none]
        intro y hy hyk
        exact h.1 (hk ▸ eq_of_beq hyk ▸ List.mem_map_of_mem hy)
      simp [hrest, hk]
    · simp [hk]

end Members

/-- What is looked up in a table made from a list, if no two of its members have the same key. -/
theorem lookup_map {β : Type} [DecidableEq β] {key : β → String} (hkey : Function.Injective key)
    (value : β → α) (xs : List β) (x : β) :
    (xs.map fun x => (key x, value x)).lookup (key x) = if x ∈ xs then some (value x)
      else none := by
  induction xs with
  | nil => rfl
  | cons y xs ih =>
    rw [List.map_cons, lookup_cons, ih]
    by_cases h : x = y
    · simp [h]
    · simp [h, hkey.ne h]

/-! ### Collecting pairs -/

theorem collect_append_singleton (pairs : List (String × α)) (key : String) (value : α) :
    collect (pairs ++ [(key, value)]) = put key value (collect pairs) := by
  rw [collect, List.foldl_append]
  rfl

/-- The keys of collected fields are those of the pairs, each at the place of its first. -/
theorem keys_collect (pairs : List (String × α)) :
    (collect pairs).map Prod.fst = (pairs.map Prod.fst).eraseDups := by
  induction pairs using List.reverseRecOn with
  | nil => rfl
  | append_singleton pairs pair ih =>
    obtain ⟨key, value⟩ := pair
    rw [collect_append_singleton, keys_put, ih, List.map_append, List.map_singleton,
      eraseDups_append_singleton]
    exact if_congr List.mem_eraseDups rfl rfl

/-- Under a key stands the value of its last pair. -/
theorem lookup_collect (key : String) (pairs : List (String × α)) :
    (collect pairs).lookup key = pairs.reverse.lookup key := by
  induction pairs using List.reverseRecOn with
  | nil => rfl
  | append_singleton pairs pair ih =>
    obtain ⟨key', value⟩ := pair
    rw [collect_append_singleton, lookup_put, ih, List.reverse_append, List.reverse_singleton,
      List.singleton_append, lookup_cons]

theorem collect_eq_self {pairs : List (String × α)} (h : (pairs.map Prod.fst).Nodup) :
    collect pairs = pairs := by
  induction pairs using List.reverseRecOn with
  | nil => rfl
  | append_singleton pairs pair ih =>
    obtain ⟨key, value⟩ := pair
    rw [List.map_append, List.map_singleton, List.nodup_append] at h
    have hkey : key ∉ pairs.map Prod.fst := fun hmem =>
      h.2.2 key hmem key (List.mem_singleton_self key) rfl
    rw [collect_append_singleton, ih h.1, put_of_fresh hkey]

/-- No key is collected twice. -/
theorem nodup_keys_collect (pairs : List (String × α)) : ((collect pairs).map Prod.fst).Nodup := by
  induction pairs using List.reverseRecOn with
  | nil => exact List.nodup_nil
  | append_singleton pairs pair ih =>
    obtain ⟨key, value⟩ := pair
    rw [collect_append_singleton, keys_put]
    split_ifs with hmem
    · exact ih
    · exact ih.append (List.nodup_singleton key) (by simpa [List.disjoint_singleton] using hmem)

end DesignTokens.Datum

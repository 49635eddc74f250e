import DocWire.Proofs.Document.Fields

namespace DocWire.Document

variable {key other : String} {fields : List (String × Value)}

theorem lookup_cons_other (h : key ≠ other) (v : Value) (rest : List (String × Value)) :
    ((other, v) :: rest).lookup key = rest.lookup key := by
  rw [List.lookup_cons, beq_eq_false_iff_ne.mpr h]

-- A field that is put somewhere is found under its name, and is not in the way of any other.
theorem lookup_putField (key other : String) (v : Value) (fields : List (String × Value)) :
    (putField key v fields).lookup other = if other = key then some v else fields.lookup other := by
  induction fields with
  | nil =>
      by_cases h : other = key
      · simp [putField, h]
      · simp [putField, h, lookup_cons_other]
  | cons field rest ih =>
      obtain ⟨k, w⟩ := field
      rw [putField]
      by_cases hk : k = key
      · subst hk
        by_cases h : other = k
        · simp [h]
        · simp only [if_true, if_neg h, lookup_cons_other h]
      · by_cases h : other = k
        · subst h
          simp [hk]
        · simp only [if_neg hk, lookup_cons_other h, ih]

theorem lookup_dropField (h : other ≠ key) (fields : List (String × Value)) :
    (dropField key fields).lookup other = fields.lookup other := by
  induction fields with
  | nil => rfl
  | cons field rest ih =>
      obtain ⟨k, w⟩ := field
      rw [dropField]
      by_cases hk : k = key
      · subst hk
        rw [if_pos rfl, lookup_cons_other h]
      · by_cases hother : other = k
        · subst hother
          simp [hk]
        · simp only [if_neg hk, lookup_cons_other hother, ih]

theorem map_dropField (key : String) (fields : List (String × Value)) :
    (dropField key fields).map (·.1) = (fields.map (·.1)).erase key := by
  induction fields with
  | nil => rfl
  | cons field rest ih =>
      obtain ⟨k, w⟩ := field
      rw [dropField, List.map_cons, List.erase_cons]
      by_cases hk : k = key
      · simp [hk]
      · simp [hk, ih]

-- What makes room is what was found under the name.
theorem exchangeField_eq (key : String) (v : Value) (fields : List (String × Value)) :
    exchangeField key v fields = (fields.lookup key, putField key v fields) := by
  induction fields with
  | nil => rfl
  | cons field rest ih =>
      obtain ⟨k, w⟩ := field
      rw [exchangeField, putField, ih]
      by_cases hk : k = key
      · simp [hk]
      · have hkey : key ≠ k := fun heq => hk heq.symm
        simp only [if_neg hk, lookup_cons_other hkey]

theorem takeField_eq (key : String) (fields : List (String × Value)) :
    takeField key fields = (fields.lookup key, dropField key fields) := by
  induction fields with
  | nil => rfl
  | cons field rest ih =>
      obtain ⟨k, w⟩ := field
      rw [takeField, dropField, ih]
      by_cases hk : k = key
      · simp [hk]
      · have hkey : key ≠ k := fun heq => hk heq.symm
        simp only [if_neg hk, lookup_cons_other hkey]

@[simp] theorem replace_eq (d : Document) (key : String) (v : Value) :
    d.replace key v = (d.get? key, d.insert key v) := by
  rw [replace, exchangeField_eq]
  rfl

@[simp] theorem remove_eq (d : Document) (key : String) :
    d.remove key = (d.get? key, d.erase key) := by
  rw [remove, takeField_eq]
  rfl

theorem mem_of_get? {d : Document} {v : Value} (h : d.get? key = some v) :
    (key, v) ∈ d.fields := by
  obtain ⟨before, after, hfields, _⟩ := List.lookup_eq_some_iff.mp h
  rw [hfields]
  exact List.mem_append_right before List.mem_cons_self

theorem mem_keys_iff {d : Document} : key ∈ d.keys ↔ ∃ v, d.get? key = some v := by
  rw [← contains_iff, contains, Option.isSome_iff_exists]

theorem get?_eq_none_iff {d : Document} : d.get? key = none ↔ key ∉ d.keys := by
  rw [mem_keys_iff, Option.eq_none_iff_forall_ne_some, not_exists]

-- Where every name is given once, a field is what is found under its name.
theorem get?_of_mem {d : Document} (hd : d.Distinct) {v : Value} (h : (key, v) ∈ d.fields) :
    d.get? key = some v := by
  obtain ⟨before, after, hfields⟩ := List.mem_iff_append.mp h
  have hnodup : (before.map (·.1) ++ key :: after.map (·.1)).Nodup := by
    have hkeys : d.keys = before.map (·.1) ++ key :: after.map (·.1) := by
      simp [keys, hfields]
    rw [← hkeys]
    exact hd
  have hnew : key ∉ before.map (·.1) := by
    intro hmem
    exact (List.nodup_append.mp hnodup).2.2 key hmem key List.mem_cons_self rfl
  refine List.lookup_eq_some_iff.mpr ⟨before, after, hfields, fun field hfield => ?_⟩
  have hne : key ≠ field.1 := by
    rintro rfl
    exact hnew (List.mem_map_of_mem hfield)
  simpa using hne

theorem get?_insert (d : Document) (key other : String) (v : Value) :
    (d.insert key v).get? other = if other = key then some v else d.get? other :=
  lookup_putField key other v d.fields

theorem get?_erase_other (d : Document) (h : other ≠ key) :
    (d.erase key).get? other = d.get? other :=
  lookup_dropField h d.fields

theorem keys_insert (d : Document) (key : String) (v : Value) :
    (d.insert key v).keys = if key ∈ d.keys then d.keys else d.keys ++ [key] :=
  keys_putField key v d.fields

theorem keys_erase (d : Document) (key : String) : (d.erase key).keys = d.keys.erase key :=
  map_dropField key d.fields

theorem get?_erase_self {d : Document} (hd : d.Distinct) (key : String) :
    (d.erase key).get? key = none := by
  rw [get?_eq_none_iff, keys_erase]
  exact hd.not_mem_erase

end DocWire.Document

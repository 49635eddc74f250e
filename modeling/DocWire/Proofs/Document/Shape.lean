import DocWire.Proofs.Document.Fields

namespace DocWire

mutual

-- How many documents and arrays stand inside one another.
def Value.depth (v : Value) : Nat :=
  match v with
  | .document d => d.depth
  | .array items => itemsDepth items + 1
  | _ => 0
termination_by structural v

def Document.depth (d : Document) : Nat :=
  match d with
  | ⟨fields⟩ => fieldsDepth fields + 1
termination_by structural d

def itemsDepth (items : List Value) : Nat :=
  match items with
  | [] => 0
  | v :: rest => max v.depth (itemsDepth rest)
termination_by structural items

def fieldsDepth (fields : List (String × Value)) : Nat :=
  match fields with
  | [] => 0
  | (_, v) :: rest => max v.depth (fieldsDepth rest)
termination_by structural fields

end

mutual

-- A property that each document has which stands in a value, at any depth.
def Value.Throughout (P : Document → Prop) (v : Value) : Prop :=
  match v with
  | .document d => d.Throughout P
  | .array items => itemsThroughout P items
  | _ => True
termination_by structural v

def Document.Throughout (P : Document → Prop) (d : Document) : Prop :=
  match d with
  | ⟨fields⟩ => P ⟨fields⟩ ∧ fieldsThroughout P fields
termination_by structural d

def itemsThroughout (P : Document → Prop) (items : List Value) : Prop :=
  match items with
  | [] => True
  | v :: rest => v.Throughout P ∧ itemsThroughout P rest
termination_by structural items

def fieldsThroughout (P : Document → Prop) (fields : List (String × Value)) : Prop :=
  match fields with
  | [] => True
  | (_, v) :: rest => v.Throughout P ∧ fieldsThroughout P rest
termination_by structural fields

end

-- A value that has no parts.
def Value.Plain (v : Value) : Prop :=
  (∀ d, v ≠ .document d) ∧ ∀ items, v ≠ .array items

mutual

-- What passes from the parts of documents and arrays to the whole holds of all values.
theorem Value.induction_on_parts {P : Value → Prop} (plain : ∀ v : Value, v.Plain → P v)
    (document : ∀ d : Document, (∀ field ∈ d.fields, P field.2) → P (.document d))
    (array : ∀ items : List Value, (∀ v ∈ items, P v) → P (.array items)) (v : Value) : P v := by
  cases v with
  | document d =>
      obtain ⟨fields⟩ := d
      exact document ⟨fields⟩ (fields_induction plain document array fields)
  | array items => exact array items (items_induction plain document array items)
  | _ => exact plain _ ⟨by simp, by simp⟩
termination_by structural v

theorem items_induction {P : Value → Prop} (plain : ∀ v : Value, v.Plain → P v)
    (document : ∀ d : Document, (∀ field ∈ d.fields, P field.2) → P (.document d))
    (array : ∀ items : List Value, (∀ v ∈ items, P v) → P (.array items)) (items : List Value) :
    ∀ v ∈ items, P v := by
  cases items with
  | nil => simp
  | cons v rest =>
      exact List.forall_mem_cons.mpr ⟨v.induction_on_parts plain document array,
        items_induction plain document array rest⟩
termination_by structural items

theorem fields_induction {P : Value → Prop} (plain : ∀ v : Value, v.Plain → P v)
    (document : ∀ d : Document, (∀ field ∈ d.fields, P field.2) → P (.document d))
    (array : ∀ items : List Value, (∀ v ∈ items, P v) → P (.array items))
    (fields : List (String × Value)) : ∀ field ∈ fields, P field.2 := by
  cases fields with
  | nil => simp
  | cons field rest =>
      obtain ⟨name, v⟩ := field
      exact List.forall_mem_cons.mpr ⟨v.induction_on_parts plain document array,
        fields_induction plain document array rest⟩
termination_by structural fields

end

variable {P : Document → Prop}

theorem fieldsThroughout_iff {fields : List (String × Value)} :
    fieldsThroughout P fields ↔ ∀ field ∈ fields, field.2.Throughout P := by
  induction fields with
  | nil => simp [fieldsThroughout]
  | cons field rest ih =>
      obtain ⟨name, v⟩ := field
      simp only [fieldsThroughout, ih, List.forall_mem_cons]

theorem itemsThroughout_iff {items : List Value} :
    itemsThroughout P items ↔ ∀ v ∈ items, v.Throughout P := by
  induction items with
  | nil => simp [itemsThroughout]
  | cons v rest ih => simp only [itemsThroughout, ih, List.forall_mem_cons]

-- Nesting is as deep as it is at the deepest place.
theorem fieldsDepth_le_iff {fields : List (String × Value)} {levels : Nat} :
    fieldsDepth fields ≤ levels ↔ ∀ field ∈ fields, field.2.depth ≤ levels := by
  induction fields with
  | nil => simp [fieldsDepth]
  | cons field rest ih =>
      obtain ⟨name, v⟩ := field
      rw [fieldsDepth, Nat.max_le, ih, List.forall_mem_cons]

theorem itemsDepth_le_iff {items : List Value} {levels : Nat} :
    itemsDepth items ≤ levels ↔ ∀ v ∈ items, v.depth ≤ levels := by
  induction items with
  | nil => simp [itemsDepth]
  | cons v rest ih => rw [itemsDepth, Nat.max_le, ih, List.forall_mem_cons]

namespace Document

theorem throughout_iff {d : Document} :
    d.Throughout P ↔ P d ∧ ∀ field ∈ d.fields, field.2.Throughout P := by
  obtain ⟨fields⟩ := d
  rw [Document.Throughout, fieldsThroughout_iff]

theorem depth_le_iff {d : Document} {levels : Nat} :
    d.depth ≤ levels + 1 ↔ ∀ field ∈ d.fields, field.2.depth ≤ levels := by
  obtain ⟨fields⟩ := d
  rw [Document.depth, Nat.add_le_add_iff_right, fieldsDepth_le_iff]

-- What every document is that has been put together field by field.
def WellFormed (d : Document) : Prop :=
  d.Throughout Distinct

theorem mem_putField {key : String} {v : Value} {fields : List (String × Value)}
    {field : String × Value} (h : field ∈ putField key v fields) :
    field = (key, v) ∨ field ∈ fields := by
  induction fields with
  | nil => exact .inl (List.mem_singleton.mp h)
  | cons other rest ih =>
      obtain ⟨k, w⟩ := other
      rw [putField] at h
      split at h
      · cases h with
        | head => exact .inl rfl
        | tail _ hrest => exact .inr (List.mem_cons_of_mem _ hrest)
      · cases h with
        | head => exact .inr List.mem_cons_self
        | tail _ hrest => exact (ih hrest).imp_right (List.mem_cons_of_mem _)

-- A document that has been put together of fields holds no others.
theorem mem_ofList {fields : List (String × Value)} {field : String × Value}
    (h : field ∈ (ofList fields).fields) : field ∈ fields := by
  induction fields using List.reverseRecOn with
  | nil => cases h
  | append_singleton fields last ih =>
      obtain ⟨key, v⟩ := last
      rw [ofList_concat] at h
      rcases mem_putField h with rfl | hmem
      · exact List.mem_append_right _ List.mem_cons_self
      · exact List.mem_append_left _ (ih hmem)

theorem wellFormed_iff {d : Document} :
    d.WellFormed ↔ d.Distinct ∧ ∀ field ∈ d.fields, field.2.Throughout Distinct :=
  throughout_iff

theorem wellFormed_empty : empty.WellFormed :=
  wellFormed_iff.mpr ⟨distinct_empty, by simp [empty]⟩

theorem wellFormed_insert {d : Document} (h : d.WellFormed) (key : String) {v : Value}
    (hv : v.Throughout Distinct) : (d.insert key v).WellFormed := by
  obtain ⟨hdistinct, hfields⟩ := wellFormed_iff.mp h
  refine wellFormed_iff.mpr ⟨distinct_insert hdistinct key v, fun field hfield => ?_⟩
  rcases mem_putField hfield with rfl | hmem
  · exact hv
  · exact hfields field hmem

theorem wellFormed_erase {d : Document} (h : d.WellFormed) (key : String) :
    (d.erase key).WellFormed := by
  obtain ⟨hdistinct, hfields⟩ := wellFormed_iff.mp h
  exact wellFormed_iff.mpr ⟨distinct_erase hdistinct key,
    fun field hfield => hfields field ((dropField_sublist key d.fields).mem hfield)⟩

theorem wellFormed_ofList {fields : List (String × Value)}
    (h : ∀ field ∈ fields, field.2.Throughout Distinct) : (ofList fields).WellFormed := by
  induction fields using List.reverseRecOn with
  | nil => exact wellFormed_empty
  | append_singleton fields field ih =>
      obtain ⟨key, v⟩ := field
      rw [ofList_concat]
      exact wellFormed_insert (ih fun other hother => h other (List.mem_append_left _ hother)) key
        (h (key, v) (by simp))

end Document

end DocWire

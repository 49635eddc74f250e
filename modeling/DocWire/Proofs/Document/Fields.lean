import Mathlib.Data.List.Induction
import DocWire.Document.Basic

namespace DocWire.Document

-- Every name is given to one field only.
def Distinct (d : Document) : Prop :=
  d.keys.Nodup

theorem keys_putField (key : String) (v : Value) (fields : List (String × Value)) :
    (putField key v fields).map (·.1) =
      if key ∈ fields.map (·.1) then fields.map (·.1) else fields.map (·.1) ++ [key] := by
  induction fields with
  | nil => rfl
  | cons field rest ih =>
      obtain ⟨k, other⟩ := field
      by_cases hk : k = key
      · subst hk
        simp [putField]
      · rw [putField, if_neg hk, List.map_cons, ih]
        have hne : key ≠ k := fun heq => hk heq.symm
        by_cases hmem : key ∈ rest.map (·.1)
        · simp [hmem]
        · simp [hmem, hne]

theorem distinct_empty : empty.Distinct :=
  List.nodup_nil

theorem distinct_insert {d : Document} (h : d.Distinct) (key : String) (v : Value) :
    (d.insert key v).Distinct := by
  unfold Distinct keys insert at *
  rw [keys_putField]
  split
  · exact h
  · next hnew =>
    rw [List.nodup_append]
    refine ⟨h, by simp, ?_⟩
    intro a ha b hb heq
    rw [List.mem_singleton] at hb
    rw [heq, hb] at ha
    exact hnew ha

theorem dropField_sublist (key : String) (fields : List (String × Value)) :
    (dropField key fields).Sublist fields := by
  induction fields with
  | nil => exact List.Sublist.refl _
  | cons field rest ih =>
      obtain ⟨k, v⟩ := field
      rw [dropField]
      split
      · exact List.sublist_cons_self _ _
      · exact ih.cons_cons _

theorem distinct_erase {d : Document} (h : d.Distinct) (key : String) : (d.erase key).Distinct :=
  List.Nodup.sublist ((dropField_sublist key d.fields).map _) h

-- The document that elements stand for. A name that comes again keeps the position where it stood
-- first and takes the value that it has last.
def denoted (fields : List (String × Value)) : Document :=
  ⟨(fields.map (·.1)).eraseDups.map fun name => (name, (fields.reverse.lookup name).getD .null)⟩

theorem eraseDups_concat (names : List String) (name : String) :
    (names ++ [name]).eraseDups =
      if name ∈ names then names.eraseDups else names.eraseDups ++ [name] := by
  rw [List.eraseDups_append]
  by_cases hmem : name ∈ names
  · simp [List.removeAll, hmem]
  · simp [List.removeAll, hmem, List.eraseDups_cons]

theorem ofList_concat (fields : List (String × Value)) (key : String) (v : Value) :
    ofList (fields ++ [(key, v)]) = (ofList fields).insert key v := by
  simp only [ofList, List.foldl_append, List.foldl_cons, List.foldl_nil]

theorem nodup_eraseDups (names : List String) : names.eraseDups.Nodup := by
  induction names using List.reverseRecOn with
  | nil => exact List.nodup_nil
  | append_singleton names name ih =>
      rw [eraseDups_concat]
      split
      · exact ih
      · next hnew =>
        rw [List.nodup_append]
        refine ⟨ih, by simp, ?_⟩
        intro a ha b hb heq
        rw [List.mem_singleton] at hb
        rw [heq, hb, List.mem_eraseDups] at ha
        exact hnew ha

-- Putting a field among fields that are found by name changes what is found under its own.
theorem putField_map (key : String) (v : Value) (value : String → Value) {names : List String}
    (h : names.Nodup) :
    putField key v (names.map fun name => (name, value name)) =
      (if key ∈ names then names else names ++ [key]).map fun name =>
        (name, if name = key then v else value name) := by
  induction names with
  | nil => simp [putField]
  | cons name names ih =>
      obtain ⟨hnew, hrest⟩ := List.nodup_cons.mp h
      rw [List.map_cons, putField]
      by_cases hname : name = key
      · subst hname
        rw [if_pos rfl, if_pos List.mem_cons_self, List.map_cons, if_pos rfl]
        congr 1
        apply List.map_congr_left
        intro other hother
        have hne : other ≠ name := fun heq => hnew (heq ▸ hother)
        rw [if_neg hne]
      · have hkey : key ≠ name := fun heq => hname heq.symm
        rw [if_neg hname, ih hrest]
        by_cases hmem : key ∈ names
        · simp [hmem, hname]
        · simp [hmem, hname, hkey]

theorem ofList_eq_denoted (fields : List (String × Value)) : ofList fields = denoted fields := by
  induction fields using List.reverseRecOn with
  | nil => rfl
  | append_singleton fields field ih =>
      obtain ⟨key, v⟩ := field
      rw [ofList_concat, ih, insert, denoted, putField_map _ _ _ (nodup_eraseDups _), denoted,
        List.map_append, List.map_singleton, eraseDups_concat]
      simp only [List.mem_eraseDups, mk.injEq]
      apply List.map_congr_left
      intro name _
      rw [List.reverse_append, List.reverse_singleton, List.singleton_append, List.lookup_cons]
      by_cases hname : name = key
      · simp [hname]
      · rw [if_neg hname, beq_eq_false_iff_ne.mpr hname]

theorem putField_fresh {key : String} (v : Value) {fields : List (String × Value)}
    (h : key ∉ fields.map (·.1)) : putField key v fields = fields ++ [(key, v)] := by
  induction fields with
  | nil => rfl
  | cons field rest ih =>
      obtain ⟨k, other⟩ := field
      rw [List.map_cons, List.mem_cons, not_or] at h
      obtain ⟨hkey, hrest⟩ := h
      rw [putField, if_neg (fun heq => hkey heq.symm), ih hrest, List.cons_append]

-- Fields that all have their own name are what they stand for.
theorem ofList_of_distinct {fields : List (String × Value)} (h : (fields.map (·.1)).Nodup) :
    ofList fields = ⟨fields⟩ := by
  induction fields using List.reverseRecOn with
  | nil => rfl
  | append_singleton fields field ih =>
      obtain ⟨key, v⟩ := field
      rw [List.map_append, List.nodup_append] at h
      obtain ⟨hfields, _, hnew⟩ := h
      have hfresh : key ∉ fields.map (·.1) := fun hmem => hnew key hmem key (by simp) rfl
      rw [ofList_concat, ih hfields, insert, putField_fresh v hfresh]

-- Where the field of that name stands, or would be put: between these fields and those.
structure Opening (d : Document) (key : String) (before after : List (String × Value)) : Prop where
  place : (∃ old, d.fields = before ++ (key, old) :: after) ∨ d.fields = before ∧ after = []
  new : key ∉ before.map (·.1)

theorem exists_opening (d : Document) (key : String) :
    ∃ before after, d.Opening key before after := by
  obtain ⟨fields⟩ := d
  induction fields with
  | nil => exact ⟨[], [], .inr ⟨rfl, rfl⟩, by simp⟩
  | cons field rest ih =>
      obtain ⟨name, v⟩ := field
      by_cases hname : name = key
      · subst hname
        exact ⟨[], rest, .inl ⟨v, rfl⟩, by simp⟩
      · obtain ⟨before, after, hplace, hnew⟩ := ih
        have hnew' : key ∉ ((name, v) :: before).map (·.1) := by
          rw [List.map_cons, List.mem_cons, not_or]
          exact ⟨fun heq => hname heq.symm, hnew⟩
        refine ⟨(name, v) :: before, after, ?_, hnew'⟩
        rcases hplace with ⟨old, hfields⟩ | ⟨hfields, hafter⟩
        · exact .inl ⟨old, congrArg ((name, v) :: ·) hfields⟩
        · exact .inr ⟨congrArg ((name, v) :: ·) hfields, hafter⟩

theorem putField_opening {key : String} {before : List (String × Value)}
    (hnew : key ∉ before.map (·.1)) (v old : Value) (after : List (String × Value)) :
    putField key v (before ++ (key, old) :: after) = before ++ (key, v) :: after := by
  induction before with
  | nil => rw [List.nil_append, putField, if_pos rfl, List.nil_append]
  | cons field rest ih =>
      obtain ⟨name, w⟩ := field
      rw [List.map_cons, List.mem_cons, not_or] at hnew
      obtain ⟨hname, hnew⟩ := hnew
      rw [List.cons_append, putField, if_neg (fun heq => hname heq.symm), ih hnew, List.cons_append]

-- A field is put where its opening is.
theorem Opening.insert_eq {d : Document} {key : String} {before after : List (String × Value)}
    (h : d.Opening key before after) (v : Value) :
    d.insert key v = ⟨before ++ (key, v) :: after⟩ := by
  rcases h.place with ⟨old, hfields⟩ | ⟨hfields, rfl⟩
  · rw [insert, hfields, putField_opening h.new]
  · rw [insert, hfields, putField_fresh v h.new]

-- No other field of a document has the name.
theorem Opening.after_new {d : Document} {key : String} {before after : List (String × Value)}
    (h : d.Opening key before after) (hd : d.Distinct) : key ∉ after.map (·.1) := by
  rcases h.place with ⟨old, hfields⟩ | ⟨_, rfl⟩
  · rw [Distinct, keys, hfields, List.map_append, List.nodup_append, List.map_cons] at hd
    exact (List.nodup_cons.mp hd.2.1).1
  · exact List.not_mem_nil

theorem contains_iff {d : Document} {key : String} : d.contains key ↔ key ∈ d.keys := by
  obtain ⟨fields⟩ := d
  rw [contains, get?, keys]
  induction fields with
  | nil => simp
  | cons field rest ih =>
      obtain ⟨name, v⟩ := field
      rw [List.lookup_cons, List.map_cons, List.mem_cons]
      by_cases hname : key = name
      · simp [hname]
      · rw [beq_eq_false_iff_ne.mpr hname, ih]
        exact (or_iff_right hname).symm

theorem insert_insert (d : Document) (key : String) (v w : Value) :
    (d.insert key v).insert key w = d.insert key w := by
  obtain ⟨before, after, h⟩ := d.exists_opening key
  rw [h.insert_eq v, h.insert_eq w, insert, putField_opening h.new]

end DocWire.Document

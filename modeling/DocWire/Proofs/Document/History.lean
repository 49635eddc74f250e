import Mathlib.Data.Finset.Card
import DocWire.Proofs.Document.Lookup

namespace DocWire

-- A change of one field.
inductive Edit where
  | insert (key : String) (value : Value)
  | remove (key : String)

namespace Edit

def key : Edit → String
  | .insert key _ => key
  | .remove key => key

-- What an edit answers, and the document that it leaves.
def apply : Edit → Document → Option Value × Document
  | .insert key value, d => d.replace key value
  | .remove key, d => d.remove key

theorem apply_insert (key : String) (v : Value) (d : Document) :
    (insert key v).apply d = (d.get? key, d.insert key v) :=
  d.replace_eq key v

theorem apply_remove (key : String) (d : Document) :
    (remove key).apply d = (d.get? key, d.erase key) :=
  d.remove_eq key

-- An edit gives back what it takes away, and leaves all other names alone.
theorem apply_answers (edit : Edit) (d : Document) :
    (edit.apply d).1 = d.get? edit.key ∧
      ∀ other, other ≠ edit.key → (edit.apply d).2.get? other = d.get? other := by
  cases edit with
  | insert key v =>
      rw [apply_insert]
      refine ⟨rfl, fun other hother => ?_⟩
      rw [Document.get?_insert]
      exact if_neg hother
  | remove key =>
      rw [apply_remove]
      exact ⟨rfl, fun other hother => d.get?_erase_other hother⟩

end Edit

namespace Document

-- One edit after the other.
def edited (d : Document) (edits : List Edit) : Document :=
  edits.foldl (fun d edit => (edit.apply d).2) d

def insertions (fields : List (String × Value)) : List Edit :=
  fields.map fun field => .insert field.1 field.2

variable {history : List Edit} {key : String}

theorem edited_append (d : Document) (first second : List Edit) :
    d.edited (first ++ second) = (d.edited first).edited second :=
  List.foldl_append

theorem edited_concat (d : Document) (history : List Edit) (edit : Edit) :
    d.edited (history ++ [edit]) = (edit.apply (d.edited history)).2 :=
  d.edited_append history [edit]

-- Fields are collected by inserting one after the other.
theorem ofList_eq_edited (fields : List (String × Value)) :
    ofList fields = empty.edited (insertions fields) := by
  rw [ofList, edited, insertions, List.foldl_map]
  congr 1
  funext d field
  rw [Edit.apply_insert]

-- The value was put under the name, and no edit has touched the name since.
def LastPut (history : List Edit) (key : String) (v : Value) : Prop :=
  ∃ before after, history = before ++ .insert key v :: after ∧ ∀ edit ∈ after, edit.key ≠ key

-- The name came in with the edit at this place, where it had no value before, and has not been
-- removed since.
structure Entered (history : List Edit) (key : String) (place : Nat) : Prop where
  inserted : ∃ v, history[place]? = some (.insert key v)
  new : ∀ v, ¬LastPut (history.take place) key v
  kept : ∀ later, place < later → history[later]? ≠ some (.remove key)

-- The last edit decides about its own name, and those before it about all others.
theorem lastPut_concat {edit : Edit} {v : Value} :
    LastPut (history ++ [edit]) key v ↔
      edit = .insert key v ∨ edit.key ≠ key ∧ LastPut history key v := by
  constructor
  · rintro ⟨before, after, hsplit, hafter⟩
    cases after using List.reverseRecOn with
    | nil =>
        obtain ⟨_, hlast⟩ := List.append_inj' hsplit rfl
        exact .inl (List.singleton_inj.mp hlast)
    | append_singleton after last =>
        rw [← List.cons_append, ← List.append_assoc] at hsplit
        obtain ⟨hhistory, hlast⟩ := List.append_inj' hsplit rfl
        obtain rfl := List.singleton_inj.mp hlast
        exact .inr ⟨hafter edit (by simp), before, after, hhistory,
          fun other hother => hafter other (by simp [hother])⟩
  · rintro (rfl | ⟨hedit, before, after, rfl, hafter⟩)
    · exact ⟨history, [], rfl, by simp⟩
    · refine ⟨before, after ++ [edit], by simp, fun other hother => ?_⟩
      rcases List.mem_append.mp hother with hmem | hmem
      · exact hafter other hmem
      · rw [List.mem_singleton.mp hmem]
        exact hedit

theorem Entered.lt_length {place : Nat} (h : Entered history key place) :
    place < history.length := by
  obtain ⟨v, hv⟩ := h.inserted
  exact (List.getElem?_eq_some_iff.mp hv).1

-- A name enters with the last edit, or it entered before and stays.
theorem entered_concat {edit : Edit} {place : Nat} :
    Entered (history ++ [edit]) key place ↔
      (place = history.length ∧ (∃ v, edit = .insert key v) ∧ ∀ v, ¬LastPut history key v) ∨
        Entered history key place ∧ edit ≠ .remove key := by
  constructor
  · intro h
    have hlength := h.lt_length
    rw [List.length_append, List.length_singleton] at hlength
    obtain ⟨v, hv⟩ := h.inserted
    have hnew := h.new
    by_cases hplace : place < history.length
    · rw [List.getElem?_append_left hplace] at hv
      rw [List.take_append_of_le_length (Nat.le_of_lt hplace)] at hnew
      refine .inr ⟨⟨⟨v, hv⟩, hnew, fun later hlater hremoved => ?_⟩, fun hedit => ?_⟩
      · have hbound := (List.getElem?_eq_some_iff.mp hremoved).1
        refine h.kept later hlater ?_
        rw [List.getElem?_append_left hbound]
        exact hremoved
      · refine h.kept history.length hplace ?_
        rw [List.getElem?_concat_length, hedit]
    · obtain rfl : place = history.length := by omega
      rw [List.getElem?_concat_length, Option.some.injEq] at hv
      rw [List.take_left] at hnew
      exact .inl ⟨rfl, ⟨v, hv⟩, hnew⟩
  · rintro (⟨rfl, ⟨v, rfl⟩, hnew⟩ | ⟨h, hedit⟩)
    · refine ⟨⟨v, List.getElem?_concat_length⟩, ?_, fun later hlater hremoved => ?_⟩
      · rw [List.take_left]
        exact hnew
      · have hbound := (List.getElem?_eq_some_iff.mp hremoved).1
        rw [List.length_append, List.length_singleton] at hbound
        omega
    · have hplace := h.lt_length
      obtain ⟨v, hv⟩ := h.inserted
      refine ⟨⟨v, ?_⟩, ?_, fun later hlater hremoved => ?_⟩
      · rw [List.getElem?_append_left hplace]
        exact hv
      · rw [List.take_append_of_le_length (Nat.le_of_lt hplace)]
        exact h.new
      · have hbound := (List.getElem?_eq_some_iff.mp hremoved).1
        rw [List.length_append, List.length_singleton] at hbound
        by_cases hlast : later < history.length
        · rw [List.getElem?_append_left hlast] at hremoved
          exact h.kept later hlater hremoved
        · obtain rfl : later = history.length := by omega
          rw [List.getElem?_concat_length, Option.some.injEq] at hremoved
          exact hedit hremoved

-- A name that has entered has a value.
theorem Entered.lastPut {place : Nat} (h : Entered history key place) :
    ∃ v, LastPut history key v := by
  induction history using List.reverseRecOn with
  | nil => exact absurd h.lt_length (Nat.not_lt_zero place)
  | append_singleton history edit ih =>
      rcases entered_concat.mp h with ⟨_, ⟨v, hedit⟩, _⟩ | ⟨hbefore, hedit⟩
      · exact ⟨v, lastPut_concat.mpr (.inl hedit)⟩
      · by_cases hkey : edit.key = key
        · subst hkey
          cases edit with
          | insert key v => exact ⟨v, lastPut_concat.mpr (.inl rfl)⟩
          | remove key => exact absurd rfl hedit
        · obtain ⟨v, hv⟩ := ih hbefore
          exact ⟨v, lastPut_concat.mpr (.inr ⟨hkey, hv⟩)⟩

theorem Entered.unique {i j : Nat} (hi : Entered history key i) (hj : Entered history key j) :
    i = j := by
  induction history using List.reverseRecOn with
  | nil => exact absurd hi.lt_length (Nat.not_lt_zero i)
  | append_singleton history edit ih =>
      rcases entered_concat.mp hi with ⟨rfl, _, hnew⟩ | ⟨hi, _⟩
      · rcases entered_concat.mp hj with ⟨rfl, _, _⟩ | ⟨hj, _⟩
        · rfl
        · obtain ⟨v, hv⟩ := hj.lastPut
          exact absurd hv (hnew v)
      · rcases entered_concat.mp hj with ⟨rfl, _, hnew⟩ | ⟨hj, _⟩
        · obtain ⟨v, hv⟩ := hi.lastPut
          exact absurd hv (hnew v)
        · exact ih hi hj

-- The document is the map that a history of edits describes, with its names in the order in which
-- they entered.
structure Reflects (d : Document) (history : List Edit) : Prop where
  distinct : d.keys.Nodup
  values : ∀ key v, d.get? key = some v ↔ LastPut history key v
  entered : ∀ key, key ∈ d.keys ↔ ∃ place, Entered history key place
  ordered : d.keys.Pairwise fun a b =>
    ∀ i j, Entered history a i → Entered history b j → i < j

theorem reflects_empty : empty.Reflects [] where
  distinct := distinct_empty
  values := by
    intro key v
    constructor
    · intro h
      cases h
    · rintro ⟨before, after, hsplit, _⟩
      simp at hsplit
  entered := by
    intro key
    constructor
    · intro h
      cases h
    · rintro ⟨place, hplace⟩
      exact absurd hplace.lt_length (Nat.not_lt_zero place)
  ordered := List.Pairwise.nil

theorem Reflects.mem_keys_iff {d : Document} (h : d.Reflects history) :
    key ∈ d.keys ↔ ∃ v, LastPut history key v := by
  simp only [Document.mem_keys_iff, h.values]

theorem Reflects.insert {d : Document} (h : d.Reflects history) (key : String) (v : Value) :
    (d.insert key v).Reflects (history ++ [.insert key v]) where
  distinct := distinct_insert h.distinct key v
  values := by
    intro other w
    rw [get?_insert, lastPut_concat]
    by_cases hother : other = key
    · subst hother
      simp [Edit.key]
    · have hne : key ≠ other := fun heq => hother heq.symm
      simp [hother, hne, Edit.key, h.values]
  entered := by
    intro other
    simp only [entered_concat, ne_eq, reduceCtorEq, not_false_eq_true, and_true]
    rw [keys_insert]
    by_cases hkey : key ∈ d.keys
    · obtain ⟨w, hw⟩ := h.mem_keys_iff.mp hkey
      rw [if_pos hkey, h.entered]
      constructor
      · rintro ⟨place, hplace⟩
        exact ⟨place, .inr hplace⟩
      · rintro ⟨place, ⟨_, ⟨u, hu⟩, hnew⟩ | hplace⟩
        · cases hu
          exact absurd hw (hnew w)
        · exact ⟨place, hplace⟩
    · rw [if_neg hkey, List.mem_append, List.mem_singleton, h.entered]
      constructor
      · rintro (⟨place, hplace⟩ | rfl)
        · exact ⟨place, .inr hplace⟩
        · exact ⟨_, .inl ⟨rfl, ⟨v, rfl⟩, fun w hw => hkey (h.mem_keys_iff.mpr ⟨w, hw⟩)⟩⟩
      · rintro ⟨place, ⟨_, ⟨u, hu⟩, _⟩ | hplace⟩
        · cases hu
          exact .inr rfl
        · exact .inl ⟨place, hplace⟩
  ordered := by
    -- among the names that were there, none enters anew
    have hold : d.keys.Pairwise fun a b => ∀ i j,
        Entered (history ++ [.insert key v]) a i →
          Entered (history ++ [.insert key v]) b j → i < j := by
      refine h.ordered.imp_of_mem fun {a b} ha hb hab i j hi hj => ?_
      obtain ⟨u, hu⟩ := h.mem_keys_iff.mp ha
      obtain ⟨w, hw⟩ := h.mem_keys_iff.mp hb
      rcases entered_concat.mp hi with ⟨_, _, hnew⟩ | ⟨hi, _⟩
      · exact absurd hu (hnew u)
      · rcases entered_concat.mp hj with ⟨_, _, hnew⟩ | ⟨hj, _⟩
        · exact absurd hw (hnew w)
        · exact hab i j hi hj
    rw [keys_insert]
    by_cases hkey : key ∈ d.keys
    · rw [if_pos hkey]
      exact hold
    · rw [if_neg hkey, List.pairwise_append]
      refine ⟨hold, List.pairwise_singleton _ _, fun a ha b hb i j hi hj => ?_⟩
      obtain rfl := List.mem_singleton.mp hb
      obtain ⟨u, hu⟩ := h.mem_keys_iff.mp ha
      have hj' : j = history.length := by
        rcases entered_concat.mp hj with ⟨hj, _, _⟩ | ⟨hj, _⟩
        · exact hj
        · exact absurd ((h.entered b).mpr ⟨j, hj⟩) hkey
      rcases entered_concat.mp hi with ⟨_, _, hnew⟩ | ⟨hi, _⟩
      · exact absurd hu (hnew u)
      · rw [hj']
        exact hi.lt_length

theorem Reflects.erase {d : Document} (h : d.Reflects history) (key : String) :
    (d.erase key).Reflects (history ++ [.remove key]) where
  distinct := distinct_erase h.distinct key
  values := by
    intro other w
    rw [lastPut_concat]
    by_cases hother : other = key
    · subst hother
      simp [get?_erase_self h.distinct, Edit.key]
    · have hne : key ≠ other := fun heq => hother heq.symm
      simp [get?_erase_other d hother, hne, Edit.key, h.values]
  entered := by
    intro other
    rw [keys_erase, h.distinct.mem_erase_iff, h.entered]
    simp only [entered_concat, reduceCtorEq, exists_false, false_and, and_false, false_or, ne_eq,
      Edit.remove.injEq]
    constructor
    · rintro ⟨hother, place, hplace⟩
      exact ⟨place, hplace, fun heq => hother heq.symm⟩
    · rintro ⟨place, hplace, hkey⟩
      exact ⟨fun heq => hkey heq.symm, place, hplace⟩
  ordered := by
    rw [keys_erase]
    refine (h.ordered.sublist List.erase_sublist).imp fun {a b} hab i j hi hj => ?_
    rcases entered_concat.mp hi with ⟨_, ⟨v, hv⟩, _⟩ | ⟨hi, _⟩
    · cases hv
    · rcases entered_concat.mp hj with ⟨_, ⟨v, hv⟩, _⟩ | ⟨hj, _⟩
      · cases hv
      · exact hab i j hi hj

theorem Reflects.apply {d : Document} (h : d.Reflects history) (edit : Edit) :
    (edit.apply d).2.Reflects (history ++ [edit]) := by
  cases edit with
  | insert key v =>
      rw [Edit.apply_insert]
      exact h.insert key v
  | remove key =>
      rw [Edit.apply_remove]
      exact h.erase key

theorem edited_reflects (history : List Edit) : (empty.edited history).Reflects history := by
  induction history using List.reverseRecOn with
  | nil => exact reflects_empty
  | append_singleton history edit ih =>
      rw [edited_concat]
      exact ih.apply edit

-- A document is a map that keeps the order of its names: whatever edits it has been through, it
-- holds under each name what was last put there, and the names stand in the order in which they
-- entered. One that was collected from fields has been through their insertions.
theorem insertion_ordered (history : List Edit) :
    (empty.edited history).Reflects history ∧
      (∀ key i j, Entered history key i → Entered history key j → i = j) ∧
      (empty.edited history).size = (empty.edited history).keys.toFinset.card ∧
      (∀ key, key ∈ (empty.edited history).keys ↔ ∃ v, LastPut history key v) ∧
      (∀ edit : Edit,
        (edit.apply (empty.edited history)).1 = (empty.edited history).get? edit.key ∧
          ∀ other, other ≠ edit.key →
            (edit.apply (empty.edited history)).2.get? other =
              (empty.edited history).get? other) ∧
      (∀ key v,
        (empty.edited history).insert key v = empty.edited (history ++ [.insert key v]) ∧
          (empty.edited (history ++ [.insert key v])).keys =
            if key ∈ (empty.edited history).keys then (empty.edited history).keys
            else (empty.edited history).keys ++ [key]) ∧
      (∀ key, (empty.edited (history ++ [.remove key])).keys =
        (empty.edited history).keys.erase key) ∧
      ∀ fields, (ofList fields).edited history = empty.edited (insertions fields ++ history) := by
  have hreflects := edited_reflects history
  refine ⟨hreflects, fun key i j hi hj => hi.unique hj, ?_, fun key => hreflects.mem_keys_iff,
    fun edit => edit.apply_answers _, fun key v => ?_, fun key => ?_, fun fields => ?_⟩
  · rw [List.toFinset_card_of_nodup hreflects.distinct, size, keys, List.length_map]
  · rw [edited_concat, Edit.apply_insert]
    exact ⟨rfl, keys_insert _ key v⟩
  · rw [edited_concat, Edit.apply_remove]
    exact keys_erase _ key
  · rw [edited_append, ofList_eq_edited]

-- A name that was removed and put again stands behind the others.
example : (empty.edited [.insert "a" .null, .insert "b" .null, .remove "a",
    .insert "a" (.boolean true)]).keys = ["b", "a"] := by
  decide

end Document

end DocWire

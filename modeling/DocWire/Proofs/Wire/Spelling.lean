import DocWire.Codec.Encode
import DocWire.Proofs.Wire.Acceptance
import DocWire.Proofs.Wire.Rendering

namespace DocWire

open Wire

-- What stands in a text, element by element: the names as they are written, in arrays too, and a
-- name as often as it is written.
inductive Spelling where
  | single (v : Value) (h : v.token?.isSome = true)
  | document (elements : List (String × Spelling))
  | array (elements : List (String × Spelling))

namespace Spelling

def tag : Spelling → Tag
  | .single v _ => v.tag
  | .document _ => .document
  | .array _ => .array

end Spelling

mutual

-- The bytes that are spelled so.
def Spelling.text (s : Spelling) : ByteArray :=
  match s with
  | .single v _ => v.payload
  | .document elements => enclosed (elementBytes elements)
  | .array elements => enclosed (elementBytes elements)
termination_by structural s

def elementBytes (elements : List (String × Spelling)) : ByteArray :=
  match elements with
  | [] => ByteArray.empty
  | (name, s) :: rest => announced s.tag name ++ (s.text ++ elementBytes rest)
termination_by structural elements

end

mutual

-- The value that they stand for.
def Spelling.value (s : Spelling) : Value :=
  match s with
  | .single v _ => v
  | .document elements => .document (.denoted (elementValues elements))
  | .array elements => .array ((elementValues elements).map (·.2))
termination_by structural s

def elementValues (elements : List (String × Spelling)) : List (String × Value) :=
  match elements with
  | [] => []
  | (name, s) :: rest => (name, s.value) :: elementValues rest
termination_by structural elements

end

mutual

-- What a reader can tell apart: names that end where they seem to, lengths that fit their words, and
-- no more than `levels` documents and arrays inside one another.
def Spelling.Legible (levels : Nat) (s : Spelling) : Prop :=
  match s with
  | .single v _ => v.length ≤ Word.maxLength
  | .document elements =>
    0 < levels ∧ elementsLegible (levels - 1) elements ∧
      (elementBytes elements).size + 5 ≤ Word.maxLength
  | .array elements =>
    0 < levels ∧ elementsLegible (levels - 1) elements ∧
      (elementBytes elements).size + 5 ≤ Word.maxLength
termination_by structural s

def elementsLegible (levels : Nat) (elements : List (String × Spelling)) : Prop :=
  match elements with
  | [] => True
  | (name, s) :: rest =>
    Writer.hasZeroByte name = false ∧ s.Legible levels ∧ elementsLegible levels rest
termination_by structural elements

end

mutual

-- No document gives a name twice, and every array names its elements by their index.
def Spelling.Canonical (s : Spelling) : Prop :=
  match s with
  | .single _ _ => True
  | .document elements => (elements.map (·.1)).Nodup ∧ elementsCanonical elements
  | .array elements =>
    elements.map (·.1) = (List.range elements.length).map toString ∧ elementsCanonical elements
termination_by structural s

def elementsCanonical (elements : List (String × Spelling)) : Prop :=
  match elements with
  | [] => True
  | (_, s) :: rest => s.Canonical ∧ elementsCanonical rest
termination_by structural elements

end

namespace Spelling

theorem tag_value (s : Spelling) : s.value.tag = s.tag := by
  cases s <;> rfl

theorem map_elementValues (elements : List (String × Spelling)) :
    elementValues elements = elements.map fun element => (element.1, element.2.value) := by
  induction elements with
  | nil => rfl
  | cons element rest ih =>
      obtain ⟨name, s⟩ := element
      rw [elementValues, ih, List.map_cons]

theorem names_elementValues (elements : List (String × Spelling)) :
    (elementValues elements).map (·.1) = elements.map (·.1) := by
  rw [map_elementValues, List.map_map]
  rfl

theorem elementsLegible_iff {levels : Nat} {elements : List (String × Spelling)} :
    elementsLegible levels elements ↔
      ∀ element ∈ elements, Writer.hasZeroByte element.1 = false ∧ element.2.Legible levels := by
  induction elements with
  | nil => simp [elementsLegible]
  | cons element rest ih =>
      obtain ⟨name, s⟩ := element
      rw [elementsLegible, ih, List.forall_mem_cons, and_assoc]

end Spelling

namespace Wire

open Spelling

-- A word that tells a length can be written in one way only.
theorem eq_ofNat_of_toInt {size : Int32} (length : Nat) (h : size.toInt = length) :
    size = Int32.ofNat length ∧ length ≤ Word.maxLength := by
  have hlt := size.toInt_lt
  have hle : length ≤ Word.maxLength := by
    rw [h] at hlt
    unfold Word.maxLength
    omega
  refine ⟨Int32.toInt_inj.mp ?_, hle⟩
  rw [h, Word.toInt_ofNat hle]

-- A single element is in the grammar if its length fits.
theorem payload_single {v : Value} (h : v.token?.isSome = true) (hsize : v.length ≤ Word.maxLength)
    (levels : Nat) : Payload levels v.tag v.payload v := by
  cases v with
  | double d => exact .double d
  | string s =>
      exact .string s _ (Word.toInt_ofNat hsize)
  | document d => cases h
  | array items => cases h
  | binary b => exact .binary b _ (Word.toInt_ofNat hsize)
  | objectId id => exact .objectId id
  | boolean b => exact .boolean b
  | dateTime t => exact .dateTime t
  | null => exact .null
  | int32 n => exact .int32 n
  | int64 n => exact .int64 n

mutual

-- What can be read of a text is the value that its spelling stands for.
theorem legible_payload (s : Spelling) {levels : Nat} (hs : s.Legible levels) :
    Payload levels s.tag s.text s.value := by
  cases s with
  | single v h => exact payload_single h hs levels
  | document elements =>
      obtain ⟨hlevels, helements, hsize⟩ := hs
      obtain ⟨levels, rfl⟩ := Nat.exists_eq_add_of_le' hlevels
      rw [← size_enclosed] at hsize
      exact .document _ (toInt_enclosed hsize) (legible_fields elements helements)
  | array elements =>
      obtain ⟨hlevels, helements, hsize⟩ := hs
      obtain ⟨levels, rfl⟩ := Nat.exists_eq_add_of_le' hlevels
      rw [← size_enclosed] at hsize
      exact .array _ (toInt_enclosed hsize) (legible_fields elements helements)
termination_by structural s

theorem legible_fields (elements : List (String × Spelling)) {levels : Nat}
    (helements : elementsLegible levels elements) :
    Fields levels (elementBytes elements) (elementValues elements) := by
  cases elements with
  | nil => exact .nil
  | cons element rest =>
      obtain ⟨name, s⟩ := element
      obtain ⟨hname, hs, hrest⟩ := helements
      exact .cons hname (legible_payload s hs) (legible_fields rest hrest)
termination_by structural elements

end

mutual

-- Every text of the grammar is spelled in some way.
theorem Payload.spelled {levels : Nat} {t : Tag} {text : ByteArray} {v : Value}
    (h : Payload levels t text v) :
    ∃ s : Spelling, s.Legible levels ∧ s.tag = t ∧ s.text = text ∧ s.value = v := by
  cases h with
  | double d => exact ⟨.single (.double d) rfl, Nat.zero_le _, rfl, rfl, rfl⟩
  | string s size hsize =>
      obtain ⟨rfl, hle⟩ := eq_ofNat_of_toInt (s.toUTF8.size + 1) hsize
      exact ⟨.single (.string s) rfl, hle, rfl, rfl, rfl⟩
  | @document _ body _ size hsize hbody =>
      obtain ⟨elements, helements, rfl, rfl⟩ := hbody.spelled
      obtain ⟨rfl, hle⟩ := eq_ofNat_of_toInt ((elementBytes elements).size + 5) hsize
      exact ⟨.document elements, ⟨Nat.succ_pos _, helements, hle⟩, rfl, rfl, rfl⟩
  | @array _ body _ size hsize hbody =>
      obtain ⟨elements, helements, rfl, rfl⟩ := hbody.spelled
      obtain ⟨rfl, hle⟩ := eq_ofNat_of_toInt ((elementBytes elements).size + 5) hsize
      exact ⟨.array elements, ⟨Nat.succ_pos _, helements, hle⟩, rfl, rfl, rfl⟩
  | binary b size hsize =>
      obtain ⟨rfl, hle⟩ := eq_ofNat_of_toInt b.bytes.size hsize
      exact ⟨.single (.binary b) rfl, hle, rfl, rfl, rfl⟩
  | objectId id => exact ⟨.single (.objectId id) rfl, Nat.zero_le _, rfl, rfl, rfl⟩
  | boolean b => exact ⟨.single (.boolean b) rfl, Nat.zero_le _, rfl, rfl, rfl⟩
  | dateTime t => exact ⟨.single (.dateTime t) rfl, Nat.zero_le _, rfl, rfl, rfl⟩
  | null => exact ⟨.single .null rfl, Nat.zero_le _, rfl, rfl, rfl⟩
  | int32 n => exact ⟨.single (.int32 n) rfl, Nat.zero_le _, rfl, rfl, rfl⟩
  | int64 n => exact ⟨.single (.int64 n) rfl, Nat.zero_le _, rfl, rfl, rfl⟩
termination_by text.size
decreasing_by
  all_goals
    rw [size_framed]
    omega

theorem Fields.spelled {levels : Nat} {body : ByteArray} {fields : List (String × Value)}
    (h : Fields levels body fields) :
    ∃ elements, elementsLegible levels elements ∧ elementBytes elements = body ∧
      elementValues elements = fields := by
  cases h with
  | nil => exact ⟨[], trivial, rfl, rfl⟩
  | @cons _ _ name _ _ _ _ hname hpayload hrest =>
      obtain ⟨s, hs, rfl, rfl, rfl⟩ := hpayload.spelled
      obtain ⟨rest, hlegible, rfl, rfl⟩ := hrest.spelled
      exact ⟨(name, s) :: rest, ⟨hname, hs, hlegible⟩, rfl, rfl⟩
termination_by body.size
decreasing_by
  all_goals
    simp only [ByteArray.size_append, size_announced]
    omega

end

end Wire

end DocWire

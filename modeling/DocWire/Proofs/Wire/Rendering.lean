import DocWire.Proofs.Document.Shape
import DocWire.Proofs.Wire.Grammar
import DocWire.Proofs.Wire.Name

namespace DocWire

def Value.tag : Value → Tag
  | .double _ => .double
  | .string _ => .string
  | .document _ => .document
  | .array _ => .array
  | .binary _ => .binary
  | .objectId _ => .objectId
  | .boolean _ => .boolean
  | .dateTime _ => .dateTime
  | .null => .null
  | .int32 _ => .int32
  | .int64 _ => .int64

namespace Wire

-- A length as it stands in front of what it measures.
def lengthBytes (length : Nat) : ByteArray :=
  Word.int32 (Int32.ofNat length)

-- A body between its size and the zero byte that ends it.
def enclosed (body : ByteArray) : ByteArray :=
  framed (Int32.ofNat (body.size + 5)) body

@[simp] theorem size_lengthBytes (length : Nat) : (lengthBytes length).size = 4 :=
  Word.size_int32 _

@[simp] theorem size_enclosed (body : ByteArray) : (enclosed body).size = body.size + 5 :=
  size_framed _ _

end Wire

open Wire

mutual

-- The bytes of a value in a document.
def Value.payload (v : Value) : ByteArray :=
  match v with
  | .double d => Word.uint64 d.bits
  | .string s => lengthBytes (s.toUTF8.size + 1) ++ terminated s
  | .document d => d.rendered
  | .array items => enclosed (itemBytes 0 items)
  | .binary b => lengthBytes b.bytes.size ++ ([b.subtype].toByteArray ++ b.bytes)
  | .objectId id => id.toBytes
  | .boolean b => [if b then 1 else 0].toByteArray
  | .dateTime t => Word.int64 t.milliseconds
  | .null => ByteArray.empty
  | .int32 n => Word.int32 n
  | .int64 n => Word.int64 n
termination_by structural v

-- The bytes of a document.
def Document.rendered (d : Document) : ByteArray :=
  match d with
  | ⟨fields⟩ => enclosed (fieldBytes fields)
termination_by structural d

-- Items are named by their index.
def itemBytes (index : Nat) (items : List Value) : ByteArray :=
  match items with
  | [] => ByteArray.empty
  | v :: rest => announced v.tag (toString index) ++ (v.payload ++ itemBytes (index + 1) rest)
termination_by structural items

def fieldBytes (fields : List (String × Value)) : ByteArray :=
  match fields with
  | [] => ByteArray.empty
  | (name, v) :: rest => announced v.tag name ++ (v.payload ++ fieldBytes rest)
termination_by structural fields

end

theorem fieldBytes_append (before after : List (String × Value)) :
    fieldBytes (before ++ after) = fieldBytes before ++ fieldBytes after := by
  induction before with
  | nil => rw [List.nil_append, fieldBytes, ByteArray.empty_append]
  | cons field rest ih =>
      obtain ⟨name, v⟩ := field
      rw [List.cons_append, fieldBytes, fieldBytes, ih]
      simp only [ByteArray.append_assoc]

-- The length that stands in front of a payload, and nothing where none does.
def Value.length : Value → Nat
  | .string s => s.toUTF8.size + 1
  | .document d => d.rendered.size
  | .array items => (enclosed (itemBytes 0 items)).size
  | .binary b => b.bytes.size
  | _ => 0

theorem Value.length_le_size (v : Value) : v.length ≤ v.payload.size := by
  cases v with
  | string s =>
      simp only [length, payload, ByteArray.size_append, size_terminated]
      omega
  | binary b =>
      simp only [length, payload, ByteArray.size_append]
      omega
  | document d => exact Nat.le_of_eq rfl
  | array items => exact Nat.le_of_eq rfl
  | _ => exact Nat.zero_le _

namespace Document

-- No name has a zero byte, which would end it where it is read.
def Named (d : Document) : Prop :=
  ∀ name ∈ d.keys, Char.ofNat 0 ∉ name.toList

theorem named_cons {name : String} {v : Value} {fields : List (String × Value)} :
    Named ⟨(name, v) :: fields⟩ ↔ Writer.hasZeroByte name = false ∧ Named ⟨fields⟩ := by
  rw [Writer.hasZeroByte_false_iff]
  exact List.forall_mem_cons

theorem named_iff {d : Document} :
    Named d ↔ ∀ field ∈ d.fields, Writer.hasZeroByte field.1 = false := by
  simp only [Named, keys, List.forall_mem_map, Writer.hasZeroByte_false_iff]

end Document

namespace Wire

theorem size_le_enclosed (body : ByteArray) : body.size ≤ (enclosed body).size := by
  rw [size_enclosed]
  exact Nat.le_add_right _ _

-- A body in its frame is the payload of the document or array that the body stands for.
theorem toInt_enclosed {body : ByteArray} (h : (enclosed body).size ≤ Word.maxLength) :
    (Int32.ofNat (body.size + 5)).toInt = body.size + 5 := by
  rw [size_enclosed] at h
  rw [Word.toInt_ofNat h]
  omega

open Document

mutual

-- The bytes of a value are in the grammar and stand for that value.
theorem payload_rendered (v : Value) {levels : Nat} (hdepth : v.depth ≤ levels)
    (hnamed : v.Throughout Named) (hdistinct : v.Throughout Distinct)
    (hsize : v.payload.size ≤ Word.maxLength) : Payload levels v.tag v.payload v := by
  cases v with
  | double d => exact .double d
  | string s =>
      simp only [Value.payload, ByteArray.size_append, size_lengthBytes, size_terminated] at hsize
      refine .string s _ ?_
      rw [Word.toInt_ofNat (by omega)]
      omega
  | document d => exact document_rendered d hdepth hnamed hdistinct hsize
  | array items =>
      obtain ⟨levels, rfl⟩ := Nat.exists_eq_add_of_le' (Nat.le_trans (Nat.le_add_left 1 _) hdepth)
      have hbody : (itemBytes 0 items).size ≤ Word.maxLength :=
        Nat.le_trans (size_le_enclosed _) hsize
      obtain ⟨fields, hitems, hfields⟩ :=
        items_rendered items 0 (Nat.le_of_succ_le_succ hdepth) hnamed hdistinct hbody
      have hpayload := Payload.array _ (toInt_enclosed hsize) hfields
      rw [hitems] at hpayload
      exact hpayload
  | binary b =>
      simp only [Value.payload, ByteArray.size_append, size_lengthBytes] at hsize
      exact .binary b _ (Word.toInt_ofNat (by omega))
  | objectId id => exact .objectId id
  | boolean b => exact .boolean b
  | dateTime t => exact .dateTime t
  | null => exact .null
  | int32 n => exact .int32 n
  | int64 n => exact .int64 n
termination_by structural v

theorem document_rendered (d : Document) {levels : Nat} (hdepth : d.depth ≤ levels)
    (hnamed : d.Throughout Named) (hdistinct : d.Throughout Distinct)
    (hsize : d.rendered.size ≤ Word.maxLength) :
    Payload levels .document d.rendered (.document d) := by
  obtain ⟨fields⟩ := d
  obtain ⟨levels, rfl⟩ := Nat.exists_eq_add_of_le' (Nat.le_trans (Nat.le_add_left 1 _) hdepth)
  obtain ⟨hclean, hnamed⟩ := hnamed
  obtain ⟨hnodup, hdistinct⟩ := hdistinct
  have hbody : (fieldBytes fields).size ≤ Word.maxLength :=
    Nat.le_trans (size_le_enclosed _) hsize
  have hfields :=
    fields_rendered fields (Nat.le_of_succ_le_succ hdepth) hclean hnamed hdistinct hbody
  have hdenoted : denoted fields = ⟨fields⟩ := by
    rw [← ofList_eq_denoted, ofList_of_distinct hnodup]
  have hpayload := Payload.document _ (toInt_enclosed hsize) hfields
  rw [hdenoted] at hpayload
  exact hpayload
termination_by structural d

theorem items_rendered (items : List Value) (index : Nat) {levels : Nat}
    (hdepth : itemsDepth items ≤ levels) (hnamed : itemsThroughout Named items)
    (hdistinct : itemsThroughout Distinct items)
    (hsize : (itemBytes index items).size ≤ Word.maxLength) :
    ∃ fields, fields.map (·.2) = items ∧ Fields levels (itemBytes index items) fields := by
  cases items with
  | nil => exact ⟨[], rfl, .nil⟩
  | cons v rest =>
      obtain ⟨hv, hnamed⟩ := hnamed
      obtain ⟨hv', hdistinct⟩ := hdistinct
      simp only [itemBytes, ByteArray.size_append] at hsize
      simp only [itemsDepth] at hdepth
      have hpayload : Payload levels v.tag v.payload v :=
        payload_rendered v (by omega) hv hv' (by omega)
      have hrest : itemsDepth rest ≤ levels := by omega
      obtain ⟨fields, hitems, hfields⟩ :=
        items_rendered rest (index + 1) hrest hnamed hdistinct (by omega)
      refine ⟨(toString index, v) :: fields, ?_, ?_⟩
      · rw [List.map_cons, hitems]
      · exact .cons (Writer.hasZeroByte_index index) hpayload hfields
termination_by structural items

theorem fields_rendered (fields : List (String × Value)) {levels : Nat}
    (hdepth : fieldsDepth fields ≤ levels) (hclean : Named ⟨fields⟩)
    (hnamed : fieldsThroughout Named fields) (hdistinct : fieldsThroughout Distinct fields)
    (hsize : (fieldBytes fields).size ≤ Word.maxLength) :
    Fields levels (fieldBytes fields) fields := by
  cases fields with
  | nil => exact .nil
  | cons field rest =>
      obtain ⟨name, v⟩ := field
      obtain ⟨hname, hclean⟩ := named_cons.mp hclean
      obtain ⟨hv, hnamed⟩ := hnamed
      obtain ⟨hv', hdistinct⟩ := hdistinct
      simp only [fieldBytes, ByteArray.size_append] at hsize
      simp only [fieldsDepth] at hdepth
      have hpayload : Payload levels v.tag v.payload v :=
        payload_rendered v (by omega) hv hv' (by omega)
      have hrest : Fields levels (fieldBytes rest) rest :=
        fields_rendered rest (by omega) hclean hnamed hdistinct (by omega)
      exact .cons hname hpayload hrest
termination_by structural fields

end

end Wire

end DocWire

import DocWire.Proofs.Wire.Writing

namespace DocWire

open Wire

mutual

-- What a writer checks of a value inside `nesting` documents and arrays.
def Value.Writable (nesting : Nat) (v : Value) : Prop :=
  match v with
  | .document d => d.Writable nesting
  | .array items =>
    nesting < maxNesting ∧ itemsWritable (nesting + 1) items ∧
      (itemBytes 0 items).size + 5 ≤ Word.maxLength
  | v => v.length ≤ Word.maxLength
termination_by structural v

def Document.Writable (nesting : Nat) (d : Document) : Prop :=
  match d with
  | ⟨fields⟩ =>
    nesting < maxNesting ∧ fieldsWritable (nesting + 1) fields ∧
      (fieldBytes fields).size + 5 ≤ Word.maxLength
termination_by structural d

def itemsWritable (nesting : Nat) (items : List Value) : Prop :=
  match items with
  | [] => True
  | v :: rest => v.Writable nesting ∧ itemsWritable nesting rest
termination_by structural items

def fieldsWritable (nesting : Nat) (fields : List (String × Value)) : Prop :=
  match fields with
  | [] => True
  | (name, v) :: rest =>
    Writer.hasZeroByte name = false ∧ v.Writable nesting ∧ fieldsWritable nesting rest
termination_by structural fields

end

theorem length_le_itemBytes (index : Nat) (items : List Value) :
    ∀ v ∈ items, v.length ≤ (itemBytes index items).size := by
  induction items generalizing index with
  | nil => simp
  | cons v rest ih =>
      have hv := v.length_le_size
      simp only [List.forall_mem_cons, itemBytes, ByteArray.size_append]
      refine ⟨by omega, fun w hw => ?_⟩
      have := ih (index + 1) w hw
      omega

theorem payload_le_fieldBytes (fields : List (String × Value)) :
    ∀ field ∈ fields, field.2.payload.size ≤ (fieldBytes fields).size := by
  induction fields with
  | nil => simp
  | cons field rest ih =>
      obtain ⟨name, v⟩ := field
      simp only [List.forall_mem_cons, fieldBytes, ByteArray.size_append]
      refine ⟨by omega, fun field hfield => ?_⟩
      have := ih field hfield
      omega

theorem length_le_fieldBytes (fields : List (String × Value)) :
    ∀ field ∈ fields, field.2.length ≤ (fieldBytes fields).size :=
  fun field hfield =>
    Nat.le_trans field.2.length_le_size (payload_le_fieldBytes fields field hfield)

mutual

-- The writer checks names, nesting and lengths, each wherever it matters.
theorem Value.writable_iff (v : Value) (nesting : Nat) (hnesting : nesting ≤ maxNesting) :
    v.Writable nesting ↔ v.Throughout Document.Named ∧ v.depth + nesting ≤ maxNesting ∧
      v.length ≤ Word.maxLength := by
  cases v with
  | document d => exact Document.writable_iff d nesting hnesting
  | array items =>
      have hbody := items_writable_iff items (nesting + 1)
      have hlengths := length_le_itemBytes 0 items
      simp only [Value.Writable, Value.Throughout, Value.depth, Value.length, size_enclosed]
      constructor
      · rintro ⟨hdeep, hitems, hsize⟩
        obtain ⟨hnamed, hdepth, _⟩ := (hbody hdeep).mp hitems
        exact ⟨hnamed, by omega, hsize⟩
      · rintro ⟨hnamed, hdepth, hsize⟩
        refine ⟨by omega, (hbody (by omega)).mpr ⟨hnamed, by omega, fun v hv => ?_⟩, hsize⟩
        have := hlengths v hv
        omega
  | _ => simp [Value.Writable, Value.Throughout, Value.depth, hnesting]
termination_by structural v

theorem Document.writable_iff (d : Document) (nesting : Nat) (hnesting : nesting ≤ maxNesting) :
    d.Writable nesting ↔ d.Throughout Document.Named ∧ d.depth + nesting ≤ maxNesting ∧
      d.rendered.size ≤ Word.maxLength := by
  obtain ⟨fields⟩ := d
  have hbody := fields_writable_iff fields (nesting + 1)
  have hlengths := length_le_fieldBytes fields
  simp only [Document.Writable, Document.Throughout, Document.depth, Document.rendered,
    size_enclosed]
  constructor
  · rintro ⟨hdeep, hfields, hsize⟩
    obtain ⟨hnamed, hinner, hdepth, _⟩ := (hbody hdeep).mp hfields
    exact ⟨⟨hnamed, hinner⟩, by omega, hsize⟩
  · rintro ⟨⟨hnamed, hinner⟩, hdepth, hsize⟩
    refine ⟨by omega, (hbody (by omega)).mpr ⟨hnamed, hinner, by omega, fun f hf => ?_⟩, hsize⟩
    have := hlengths f hf
    omega
termination_by structural d

theorem items_writable_iff (items : List Value) (nesting : Nat) (hnesting : nesting ≤ maxNesting) :
    itemsWritable nesting items ↔ itemsThroughout Document.Named items ∧
      itemsDepth items + nesting ≤ maxNesting ∧ ∀ v ∈ items, v.length ≤ Word.maxLength := by
  cases items with
  | nil => simp [itemsWritable, itemsThroughout, itemsDepth, hnesting]
  | cons v rest =>
      simp only [itemsWritable, itemsThroughout, itemsDepth, List.forall_mem_cons,
        Value.writable_iff v nesting hnesting, items_writable_iff rest nesting hnesting]
      constructor
      · rintro ⟨⟨hv, hdepth, hlength⟩, hrest, hdepths, hlengths⟩
        exact ⟨⟨hv, hrest⟩, by omega, hlength, hlengths⟩
      · rintro ⟨⟨hv, hrest⟩, hdepth, hlength, hlengths⟩
        exact ⟨⟨hv, by omega, hlength⟩, hrest, by omega, hlengths⟩
termination_by structural items

theorem fields_writable_iff (fields : List (String × Value)) (nesting : Nat)
    (hnesting : nesting ≤ maxNesting) :
    fieldsWritable nesting fields ↔ Document.Named ⟨fields⟩ ∧
      fieldsThroughout Document.Named fields ∧ fieldsDepth fields + nesting ≤ maxNesting ∧
      ∀ field ∈ fields, field.2.length ≤ Word.maxLength := by
  cases fields with
  | nil => simp [fieldsWritable, fieldsThroughout, fieldsDepth, hnesting, Document.Named,
      Document.keys]
  | cons field rest =>
      obtain ⟨name, v⟩ := field
      simp only [fieldsWritable, fieldsThroughout, fieldsDepth, List.forall_mem_cons,
        Document.named_cons, Value.writable_iff v nesting hnesting,
        fields_writable_iff rest nesting hnesting]
      constructor
      · rintro ⟨hname, ⟨hv, hdepth, hlength⟩, hnamed, hrest, hdepths, hlengths⟩
        exact ⟨⟨hname, hnamed⟩, ⟨hv, hrest⟩, by omega, hlength, hlengths⟩
      · rintro ⟨⟨hname, hnamed⟩, ⟨hv, hrest⟩, hdepth, hlength, hlengths⟩
        exact ⟨hname, ⟨hv, by omega, hlength⟩, hnamed, hrest, by omega, hlengths⟩
termination_by structural fields

end

namespace Writer

open Outcome

theorem leaves_of_eq {x y : Action Unit} {w u : Writer} {C : Prop} (h : x w = y w)
    (hy : Leaves y w C u) : Leaves x w C u := by
  intro v
  rw [h]
  exact hy v

theorem run_seq (x : Writing Unit) (f : Unit → Writing Unit) :
    (x >>= f).run = x.run >>= fun a => (f a).run := by
  funext w
  exact Writing.run_bind x f w

theorem run_token (token : Token) : (Writing.write token).run = apply token := by
  funext w
  exact Writing.run_write token w

theorem done_leaves (w : Writer) : Leaves (Writing.done ()).run w True w := by
  intro u
  rw [Writing.run_done, EStateM.Result.ok.injEq, eq_self, true_and, true_and]
  exact eq_comm

theorem name_leaves (w : Writer) (name : String) :
    Leaves (apply (.name name)) w True { w with name := some name } := by
  intro u
  rw [apply, modify_eq_ok, true_and, eq_comm]

-- What is written between the two ends of a document stands in the frame of its size.
theorem framed_leaves {start x : Action Unit} {container : Container} {w : Writer} {S C : Prop}
    {before body : ByteArray} {frames : List Frame} {index : Nat}
    (hstart : Leaves start w S
      ⟨before ++ Word.int32 0, ⟨before.size, container, 0⟩ :: frames, none⟩)
    (hx : Leaves x ⟨before ++ Word.int32 0, ⟨before.size, container, 0⟩ :: frames, none⟩ C
      ⟨before ++ Word.int32 0 ++ body, ⟨before.size, container, index⟩ :: frames, none⟩) :
    Leaves (start >>= fun _ => x >>= fun _ => closeFrame container) w
      (S ∧ C ∧ body.size + 5 ≤ Word.maxLength) ⟨before ++ enclosed body, frames, none⟩ := by
  rw [ByteArray.append_assoc] at hx
  exact leaves_bind hstart (leaves_bind hx closeFrame_leaves)

-- A document or an array that is an element opens behind its name.
theorem headed_leaves {w : Writer} {name : String} {frames : List Frame}
    (hname : takeName w = .ok name ⟨w.buffer, frames, none⟩) (tag : Tag) (container : Container) :
    Leaves (header tag >>= fun _ => openFrame container) w
      (hasZeroByte name = false ∧ frames.length < maxNesting)
      ⟨w.buffer ++ announced tag name ++ Word.int32 0,
        ⟨(w.buffer ++ announced tag name).size, container, 0⟩ :: frames, none⟩ :=
  leaves_bind (header_leaves hname tag) (openFrame_leaves _ container)

theorem frames_of_takeName {w u : Writer} {name : String} (h : takeName w = .ok name u) :
    w.frames.isEmpty = false := by
  cases hframes : w.frames with
  | nil => simp [takeName, hframes] at h
  | cons frame outer => rfl

theorem startDocument_inside {w : Writer} (h : w.frames.isEmpty = false) :
    apply .startDocument w = (header .document >>= fun _ => openFrame .document) w := by
  rw [apply, Outcome.get_bind, h]
  rfl

theorem startDocument_outside {w : Writer} (h : w.frames.isEmpty = true) :
    apply .startDocument w = openFrame .document w := by
  rw [apply, Outcome.get_bind, h]
  rfl

mutual

-- The registry writes a value just when it is writable, and then appends its bytes.
theorem value_leaves (v : Value) {w : Writer} {name : String} {frames : List Frame}
    (hname : takeName w = .ok name ⟨w.buffer, frames, none⟩) :
    Leaves (Registry.standard.writeValue .value v).run w
      (hasZeroByte name = false ∧ v.Writable frames.length)
      ⟨w.buffer ++ (announced v.tag name ++ v.payload), frames, none⟩ := by
  cases v with
  | document d =>
      obtain ⟨fields⟩ := d
      have hstart := leaves_of_eq (startDocument_inside (frames_of_takeName hname))
        (headed_leaves hname .document .document)
      have hbody := fields_leaves fields (w.buffer ++ announced .document name ++ Word.int32 0)
        (w.buffer ++ announced .document name).size 0 frames
      change Leaves (Writing.document (Registry.standard.writeFields .any fields)).run w _ _
      rw [Writing.document, run_seq, run_seq, run_token, run_token]
      refine leaves_congr (framed_leaves hstart hbody) ?_ ?_
      · rw [and_assoc]
        exact Iff.rfl
      · rw [ByteArray.append_assoc]
        rfl
  | array items =>
      have hbody := items_leaves items (w.buffer ++ announced .array name ++ Word.int32 0)
        (w.buffer ++ announced .array name).size 0 frames
      change Leaves (Writing.array (Registry.standard.writeItems items)).run w _ _
      rw [Writing.array, run_seq, run_seq, run_token, run_token]
      refine leaves_congr (framed_leaves (headed_leaves hname .array .array) hbody) ?_ ?_
      · rw [and_assoc]
        exact Iff.rfl
      · rw [ByteArray.append_assoc]
        rfl
  | _ =>
      change Leaves (Writing.write _).run w _ _
      rw [run_token]
      exact token_leaves hname rfl
termination_by structural v

theorem items_leaves (items : List Value) (before : ByteArray) (start index : Nat)
    (outer : List Frame) :
    Leaves (Registry.standard.writeItems items).run ⟨before, ⟨start, .array, index⟩ :: outer, none⟩
      (itemsWritable (outer.length + 1) items)
      ⟨before ++ itemBytes index items, ⟨start, .array, index + items.length⟩ :: outer, none⟩ := by
  cases items with
  | nil =>
      refine leaves_congr (done_leaves _) Iff.rfl ?_
      rw [itemBytes, ByteArray.append_empty]
      rfl
  | cons v rest =>
      have hname : takeName ⟨before, ⟨start, .array, index⟩ :: outer, none⟩ = .ok (toString index)
          ⟨before, ⟨start, .array, index + 1⟩ :: outer, none⟩ := takeName_array rfl
      have hrest := items_leaves rest (before ++ (announced v.tag (toString index) ++ v.payload))
        start (index + 1) outer
      change Leaves (Registry.standard.writeValue .value v >>= fun _ =>
        Registry.standard.writeItems rest).run _ _ _
      rw [run_seq]
      refine leaves_congr (leaves_bind (value_leaves v hname) hrest) ?_ ?_
      · rw [hasZeroByte_index, eq_self, true_and]
        exact Iff.rfl
      · rw [itemBytes, List.length_cons, Nat.add_right_comm index, Nat.add_assoc]
        simp only [ByteArray.append_assoc]
termination_by structural items

theorem fields_leaves (fields : List (String × Value)) (before : ByteArray) (start index : Nat)
    (outer : List Frame) :
    Leaves (Registry.standard.writeFields .any fields).run
      ⟨before, ⟨start, .document, index⟩ :: outer, none⟩
      (fieldsWritable (outer.length + 1) fields)
      ⟨before ++ fieldBytes fields, ⟨start, .document, index⟩ :: outer, none⟩ := by
  cases fields with
  | nil =>
      refine leaves_congr (done_leaves _) Iff.rfl ?_
      rw [fieldBytes, ByteArray.append_empty]
  | cons field rest =>
      obtain ⟨name, v⟩ := field
      have hname : takeName ⟨before, ⟨start, .document, index⟩ :: outer, some name⟩ = .ok name
          ⟨before, ⟨start, .document, index⟩ :: outer, none⟩ := takeName_document rfl rfl
      have hrest := fields_leaves rest (before ++ (announced v.tag name ++ v.payload)) start index
        outer
      change Leaves (Writing.write (.name name) >>= fun _ =>
        Registry.standard.writeValue .value v >>= fun _ =>
          Registry.standard.writeFields .any rest).run _ _ _
      rw [run_seq, run_seq, run_token]
      refine leaves_congr (leaves_bind (name_leaves _ name)
        (leaves_bind (value_leaves v hname) hrest)) ?_ ?_
      · rw [true_and, and_assoc]
        exact Iff.rfl
      · rw [fieldBytes]
        simp only [ByteArray.append_assoc]
termination_by structural fields

end

end Writer

end DocWire

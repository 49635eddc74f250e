import DocWire.Proofs.Wire.Encoding

namespace DocWire

open Wire

-- A length that its word cannot tell, of something that takes up `size` bytes at most.
def CodecError.TooLong (size : Nat) (e : CodecError) : Prop :=
  ∃ length, e = .invalidDocument (.tooLong length) ∧ Word.maxLength < length ∧ length ≤ size

theorem CodecError.TooLong.mono {a b : Nat} {e : CodecError} (h : e.TooLong a) (hab : a ≤ b) :
    e.TooLong b := by
  obtain ⟨length, he, hlong, hlength⟩ := h
  exact ⟨length, he, hlong, Nat.le_trans hlength hab⟩

namespace Writer

open Outcome

-- An action that fails from this writer, if at all, because of a length.
def FailsByLength (x : Action Unit) (w : Writer) (size : Nat) : Prop :=
  ∀ e u, x w = .error e u → e.TooLong size

theorem FailsByLength.mono {x : Action Unit} {w : Writer} {a b : Nat} (h : FailsByLength x w a)
    (hab : a ≤ b) : FailsByLength x w b :=
  fun e u he => (h e u he).mono hab

theorem FailsByLength.of_eq {x y : Action Unit} {w : Writer} {size : Nat} (hy : FailsByLength y w size)
    (h : x w = y w) : FailsByLength x w size := by
  intro e u he
  rw [h] at he
  exact hy e u he

theorem FailsByLength.bind {x : Action Unit} {f : Unit → Action Unit} {w u : Writer} {C : Prop}
    {size : Nat} (hx : FailsByLength x w size) (hleaves : Leaves x w C u)
    (hf : FailsByLength (f ()) u size) : FailsByLength (x >>= f) w size := by
  intro e v h
  cases hrun : x w with
  | ok a m =>
      rw [bind_of_ok hrun] at h
      obtain ⟨_, rfl⟩ := (hleaves m).mp hrun
      exact hf e v h
  | error fault m =>
      rw [bind_of_error hrun] at h
      cases h
      exact hx e v hrun

theorem append_fails (bytes : ByteArray) (w : Writer) (size : Nat) :
    FailsByLength (append bytes) w size := by
  intro e u h
  cases h

theorem header_fails {w u : Writer} {name : String} (hname : takeName w = .ok name u)
    (hclean : hasZeroByte name = false) (tag : Tag) (size : Nat) :
    FailsByLength (header tag) w size := by
  intro e v h
  rw [(header_leaves hname tag _).mpr ⟨hclean, rfl⟩] at h
  cases h

theorem appendLength_fails (length : Nat) (w : Writer) :
    FailsByLength (appendLength length) w length := by
  intro e u h
  unfold appendLength lengthWord at h
  by_cases hfits : length ≤ Word.maxLength
  · rw [if_pos hfits] at h
    cases h
  · rw [if_neg hfits] at h
    cases h
    exact ⟨length, rfl, Nat.not_le.mp hfits, Nat.le_refl _⟩

theorem openFrame_fails {w : Writer} (hdeep : w.frames.length < maxNesting) (container : Container)
    (size : Nat) : FailsByLength (openFrame container) w size := by
  intro e u h
  rw [(openFrame_leaves w container _).mpr ⟨hdeep, rfl⟩] at h
  cases h

theorem closeFrame_fails (before body : ByteArray) (container : Container) (index : Nat)
    (outer : List Frame) (name : Option String) :
    FailsByLength (closeFrame container)
      ⟨before ++ (Word.int32 0 ++ body), ⟨before.size, container, index⟩ :: outer, name⟩
      (body.size + 5) := by
  intro e u h
  have hsize : (before ++ (Word.int32 0 ++ body) ++ [0].toByteArray).size - before.size =
      body.size + 5 := by
    simp only [ByteArray.size_append, Word.size_int32, List.size_toByteArray, List.length_singleton]
    omega
  simp only [closeFrame, if_true, hsize, lengthWord] at h
  by_cases hfits : body.size + 5 ≤ Word.maxLength
  · simp only [hfits, if_true] at h
    cases h
  · simp only [hfits, if_false] at h
    cases h
    exact ⟨_, rfl, Nat.not_le.mp hfits, Nat.le_refl _⟩

theorem fixed_fails {w u : Writer} {name : String} (hname : takeName w = .ok name u)
    (hclean : hasZeroByte name = false) (tag : Tag) (bytes : ByteArray) (size : Nat) :
    FailsByLength (header tag >>= fun _ => append bytes) w size :=
  (header_fails hname hclean tag size).bind (header_leaves hname tag) (append_fails bytes _ size)

theorem counted_fails {w u : Writer} {name : String} (hname : takeName w = .ok name u)
    (hclean : hasZeroByte name = false) (tag : Tag) (length : Nat) (bytes : ByteArray) :
    FailsByLength (header tag >>= fun _ => appendLength length >>= fun _ => append bytes) w
      length :=
  (header_fails hname hclean tag length).bind (header_leaves hname tag)
    ((appendLength_fails length _).bind (appendLength_appends length _)
      (append_fails bytes _ length))

-- Of the values that are single elements, only those with a length can be refused.
theorem token_fails {w u : Writer} {name : String} (hname : takeName w = .ok name u)
    (hclean : hasZeroByte name = false) {v : Value} {token : Token} (hv : v.token? = some token) :
    FailsByLength (apply token) w v.length := by
  cases v <;> cases hv
  case double d => exact fixed_fails hname hclean .double _ _
  case string s => exact counted_fails hname hclean .string _ _
  case binary b => exact counted_fails hname hclean .binary _ _
  case objectId id => exact fixed_fails hname hclean .objectId _ _
  case boolean b => exact fixed_fails hname hclean .boolean _ _
  case dateTime t => exact fixed_fails hname hclean .dateTime _ _
  case null => exact header_fails hname hclean .null _
  case int32 n => exact fixed_fails hname hclean .int32 _ _
  case int64 n => exact fixed_fails hname hclean .int64 _ _

-- A body between the two ends of a document fails where it does itself, or where it is measured.
theorem framed_fails {start x : Action Unit} {container : Container} {w : Writer} {S C : Prop}
    {before body : ByteArray} {frames : List Frame} {index : Nat}
    (hstart : Leaves start w S
      ⟨before ++ Word.int32 0, ⟨before.size, container, 0⟩ :: frames, none⟩)
    (hx : Leaves x ⟨before ++ Word.int32 0, ⟨before.size, container, 0⟩ :: frames, none⟩ C
      ⟨before ++ Word.int32 0 ++ body, ⟨before.size, container, index⟩ :: frames, none⟩)
    (hbegin : FailsByLength start w (enclosed body).size)
    (hbody : FailsByLength x ⟨before ++ Word.int32 0, ⟨before.size, container, 0⟩ :: frames, none⟩
      body.size) :
    FailsByLength (start >>= fun _ => x >>= fun _ => closeFrame container) w
      (enclosed body).size := by
  have hclose := closeFrame_fails before body container index frames none
  rw [ByteArray.append_assoc] at hx
  rw [← size_enclosed] at hclose
  exact hbegin.bind hstart ((hbody.mono (size_le_enclosed body)).bind hx hclose)

theorem headed_fails {w : Writer} {name : String} {frames : List Frame}
    (hname : takeName w = .ok name ⟨w.buffer, frames, none⟩) (hclean : hasZeroByte name = false)
    (hdeep : frames.length < maxNesting) (tag : Tag) (container : Container) (size : Nat) :
    FailsByLength (header tag >>= fun _ => openFrame container) w size :=
  (header_fails hname hclean tag size).bind (header_leaves hname tag)
    (openFrame_fails hdeep container size)

open Document

mutual

-- Where names and nesting are in order, nothing but a length can keep a value from being written.
theorem value_fails (v : Value) {w : Writer} {name : String} {frames : List Frame}
    (hname : takeName w = .ok name ⟨w.buffer, frames, none⟩) (hclean : hasZeroByte name = false)
    (hnamed : v.Throughout Named) (hdepth : v.depth + frames.length ≤ maxNesting) :
    FailsByLength (Registry.standard.writeValue .value v).run w v.payload.size := by
  cases v with
  | document d =>
      obtain ⟨fields⟩ := d
      obtain ⟨hown, hnamed⟩ := hnamed
      simp only [Value.depth, Document.depth] at hdepth
      have hstart := leaves_of_eq (startDocument_inside (frames_of_takeName hname))
        (headed_leaves hname .document .document)
      have hbegin := (headed_fails hname hclean (by omega) .document .document
        (enclosed (fieldBytes fields)).size).of_eq
          (startDocument_inside (frames_of_takeName hname))
      have hbody := fields_fails fields (w.buffer ++ announced .document name ++ Word.int32 0)
        (w.buffer ++ announced .document name).size 0 frames hown hnamed (by omega)
      change FailsByLength (Writing.document (Registry.standard.writeFields .any fields)).run w _
      rw [Writing.document, run_seq, run_seq, run_token, run_token]
      exact framed_fails hstart (fields_leaves fields _ _ 0 frames) hbegin hbody
  | array items =>
      simp only [Value.depth] at hdepth
      have hbegin := headed_fails hname hclean (by omega) .array .array
        (enclosed (itemBytes 0 items)).size
      have hbody := items_fails items (w.buffer ++ announced .array name ++ Word.int32 0)
        (w.buffer ++ announced .array name).size 0 frames hnamed (by omega)
      change FailsByLength (Writing.array (Registry.standard.writeItems items)).run w _
      rw [Writing.array, run_seq, run_seq, run_token, run_token]
      exact framed_fails (headed_leaves hname .array .array) (items_leaves items _ _ 0 frames)
        hbegin hbody
  | _ =>
      change FailsByLength (Writing.write _).run w _
      rw [run_token]
      exact (token_fails hname hclean rfl).mono (Value.length_le_size _)
termination_by structural v

theorem items_fails (items : List Value) (before : ByteArray) (start index : Nat)
    (outer : List Frame) (hnamed : itemsThroughout Named items)
    (hdepth : itemsDepth items + (outer.length + 1) ≤ maxNesting) :
    FailsByLength (Registry.standard.writeItems items).run
      ⟨before, ⟨start, .array, index⟩ :: outer, none⟩ (itemBytes index items).size := by
  cases items with
  | nil =>
      intro e u h
      cases h
  | cons v rest =>
      obtain ⟨hv, hnamed⟩ := hnamed
      simp only [itemsDepth] at hdepth
      have hname : takeName ⟨before, ⟨start, .array, index⟩ :: outer, none⟩ = .ok (toString index)
          ⟨before, ⟨start, .array, index + 1⟩ :: outer, none⟩ := takeName_array rfl
      have hdeep : v.depth + (outer.length + 1) ≤ maxNesting := by omega
      have hvalue := value_fails v hname (hasZeroByte_index index) hv hdeep
      have hrest := items_fails rest (before ++ (announced v.tag (toString index) ++ v.payload))
        start (index + 1) outer hnamed (by omega)
      change FailsByLength (Registry.standard.writeValue .value v >>= fun _ =>
        Registry.standard.writeItems rest).run _ _
      rw [run_seq, itemBytes]
      simp only [ByteArray.size_append]
      exact (hvalue.mono (by omega)).bind (value_leaves v hname) (hrest.mono (by omega))
termination_by structural items

theorem fields_fails (fields : List (String × Value)) (before : ByteArray) (start index : Nat)
    (outer : List Frame) (hown : Named ⟨fields⟩) (hnamed : fieldsThroughout Named fields)
    (hdepth : fieldsDepth fields + (outer.length + 1) ≤ maxNesting) :
    FailsByLength (Registry.standard.writeFields .any fields).run
      ⟨before, ⟨start, .document, index⟩ :: outer, none⟩ (fieldBytes fields).size := by
  cases fields with
  | nil =>
      intro e u h
      cases h
  | cons field rest =>
      obtain ⟨name, v⟩ := field
      obtain ⟨hclean, hown⟩ := named_cons.mp hown
      obtain ⟨hv, hnamed⟩ := hnamed
      simp only [fieldsDepth] at hdepth
      have hname : takeName ⟨before, ⟨start, .document, index⟩ :: outer, some name⟩ = .ok name
          ⟨before, ⟨start, .document, index⟩ :: outer, none⟩ := takeName_document rfl rfl
      have hdeep : v.depth + (outer.length + 1) ≤ maxNesting := by omega
      have hvalue := value_fails v hname hclean hv hdeep
      have hrest := fields_fails rest (before ++ (announced v.tag name ++ v.payload)) start index
        outer hown hnamed (by omega)
      change FailsByLength (Writing.write (.name name) >>= fun _ =>
        Registry.standard.writeValue .value v >>= fun _ =>
          Registry.standard.writeFields .any rest).run _ _
      rw [run_seq, run_seq, run_token, fieldBytes]
      simp only [ByteArray.size_append]
      have hset : FailsByLength (apply (.name name)) ⟨before, ⟨start, .document, index⟩ :: outer, none⟩
          ((announced v.tag name).size + (v.payload.size + (fieldBytes rest).size)) := by
        intro e u h
        cases h
      exact hset.bind (name_leaves _ name)
        ((hvalue.mono (by omega)).bind (value_leaves v hname) (hrest.mono (by omega)))
termination_by structural fields

end

end Writer

namespace Wire

open Document Writer

-- A document whose names and nesting are in order can be written unless it is too long, and that is
-- what is said of it then.
theorem toBytes_error {d : Document} (hnamed : d.Throughout Named) (hdepth : d.depth ≤ maxNesting)
    {e : CodecError} (h : Registry.standard.toBytes d = .error e) :
    e.TooLong d.rendered.size := by
  obtain ⟨fields⟩ := d
  obtain ⟨hown, hnamed⟩ := hnamed
  have hempty : (onBuffer ByteArray.empty).frames.isEmpty = true := rfl
  have hstart := leaves_of_eq (startDocument_outside hempty) (openFrame_leaves _ .document)
  have hbegin := (openFrame_fails (w := onBuffer ByteArray.empty) (Nat.succ_pos 99) .document
    (enclosed (fieldBytes fields)).size).of_eq (startDocument_outside hempty)
  have hbody := fields_fails fields (ByteArray.empty ++ Word.int32 0) 0 0 [] hown hnamed hdepth
  have hwhole : FailsByLength (Registry.standard.encodeDocument ⟨fields⟩).run
      (onBuffer ByteArray.empty) (enclosed (fieldBytes fields)).size := by
    change FailsByLength (Writing.document (Registry.standard.writeFields .any fields)).run _ _
    rw [Writing.document, run_seq, run_seq, run_token, run_token]
    exact framed_fails hstart (fields_leaves fields _ 0 0 []) hbegin hbody
  unfold Registry.toBytes Writing.runOn at h
  cases hrun : (Registry.standard.encodeDocument ⟨fields⟩).run (onBuffer ByteArray.empty) with
  | ok u w =>
      rw [hrun] at h
      cases h
  | error fault w =>
      rw [hrun] at h
      cases h
      exact hwhole e w hrun

end Wire

end DocWire

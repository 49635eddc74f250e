import DocWire.Proofs.Wire.Reading

namespace DocWire.Wire

open Outcome Reader

-- The codec that reads what a tag announces when nothing has been registered.
def codecOf : Tag → Codec
  | .double => .scalar .double
  | .string => .scalar .string
  | .document => .document .any
  | .array => .sequence
  | .binary => .scalar .binary
  | .objectId => .scalar .objectId
  | .boolean => .scalar .boolean
  | .dateTime => .scalar .dateTime
  | .null => .null
  | .int32 => .scalar .int32
  | .int64 => .scalar .int64

theorem resolveTag_standard (t : Tag) : Registry.standard.resolveTag t = .ok (codecOf t) := by
  cases t <;> rfl

-- What an action leaves behind that has read `text`: whatever it announced last is forgotten.
def Past (r s : Reader) (text : ByteArray) : Prop :=
  ∃ current, s = { r.skip text.size with current := current }

namespace Past

variable {r s t : Reader} {a b : ByteArray}

theorem skip (r : Reader) (text : ByteArray) : Past r (r.skip text.size) text :=
  ⟨r.current, rfl⟩

theorem refl (r : Reader) : Past r r ByteArray.empty :=
  ⟨r.current, rfl⟩

theorem trans (h : Past r s a) (h' : Past s t b) : Past r t (a ++ b) := by
  obtain ⟨_, rfl⟩ := h
  obtain ⟨current, rfl⟩ := h'
  refine ⟨current, ?_⟩
  simp only [Reader.skip, ByteArray.size_append, Nat.add_assoc]

theorem bounded (h : Past r s a) (hr : r.Bounded) : s.Bounded := by
  obtain ⟨_, rfl⟩ := h
  exact hr

theorem ends (h : Past r s a) : s.ends = r.ends := by
  obtain ⟨_, rfl⟩ := h
  rfl

theorem bytes (h : Past r s a) : s.bytes = r.bytes := by
  obtain ⟨_, rfl⟩ := h
  rfl

theorem position (h : Past r s a) : s.position = r.position + a.size := by
  obtain ⟨_, rfl⟩ := h
  rfl

theorem within (h : Past r s a) (ha : r.Holds a) : s.position ≤ s.limit := by
  obtain ⟨_, rfl⟩ := h
  exact ha.1

-- What is held behind a text is held together with it.
theorem holds (h : Past r s a) : r.Holds (a ++ b) ↔ r.Holds a ∧ s.Holds b := by
  obtain ⟨_, rfl⟩ := h
  exact holds_append

end Past

theorem currentCodec_standard {r : Reader} {t : Tag} (h : r.current = some t) :
    Registry.standard.currentCodec r = .ok (codecOf t) r := by
  rw [Registry.currentCodec, get_bind, h]
  simp only [Option.getD_some, resolveTag_standard]
  rfl

theorem scalar_read_sound {r s : Reader} (hr : r.Bounded) {levels : Nat} {t : Tag}
    {scalar : Scalar} (ht : codecOf t = .scalar scalar) {v : Value} (h : scalar.read r = .ok v s) :
    ∃ text, Payload levels t text v ∧ r.Holds text ∧ s = r.skip text.size := by
  cases t <;> cases ht <;> simp only [Scalar.read, bind_eq_ok, pure_eq_ok] at h
  case double =>
    obtain ⟨d, _, h, rfl, rfl⟩ := h
    obtain ⟨htext, rfl⟩ := (double_eq_ok hr).mp h
    exact ⟨_, .double d, htext, rfl⟩
  case string =>
    obtain ⟨text, _, h, rfl, rfl⟩ := h
    obtain ⟨size, hsize, htext, rfl⟩ := (string_eq_ok hr).mp h
    refine ⟨_, .string text size hsize, htext, ?_⟩
    rw [ByteArray.size_append, Word.size_int32, size_terminated]
    congr 1
    omega
  case binary =>
    obtain ⟨b, _, h, rfl, rfl⟩ := h
    obtain ⟨size, hsize, htext, rfl⟩ := (binary_eq_ok hr).mp h
    refine ⟨_, .binary b size hsize, htext, ?_⟩
    simp only [ByteArray.size_append, Word.size_int32, List.size_toByteArray, List.length_singleton]
    congr 1
    omega
  case objectId =>
    obtain ⟨id, _, h, rfl, rfl⟩ := h
    obtain ⟨htext, rfl⟩ := (objectId_eq_ok hr).mp h
    refine ⟨_, .objectId id, htext, ?_⟩
    rw [ObjectId.size_toBytes]
  case boolean =>
    obtain ⟨b, _, h, rfl, rfl⟩ := h
    obtain ⟨htext, rfl⟩ := (boolean_eq_ok hr).mp h
    exact ⟨_, .boolean b, htext, rfl⟩
  case dateTime =>
    obtain ⟨t, _, h, rfl, rfl⟩ := h
    obtain ⟨htext, rfl⟩ := (dateTime_eq_ok hr).mp h
    exact ⟨_, .dateTime t, htext, rfl⟩
  case int32 =>
    obtain ⟨n, _, h, rfl, rfl⟩ := h
    obtain ⟨htext, rfl⟩ := (int32_eq_ok hr).mp h
    exact ⟨_, .int32 n, htext, rfl⟩
  case int64 =>
    obtain ⟨n, _, h, rfl, rfl⟩ := h
    obtain ⟨htext, rfl⟩ := (int64_eq_ok hr).mp h
    exact ⟨_, .int64 n, htext, rfl⟩

-- Entering a document keeps the reader inside what is around it.
theorem start_bounded {r s : Reader} (hr : r.Bounded) {u : Unit} (h : start r = .ok u s) :
    s.Bounded ∧ s.ends.length = r.ends.length + 1 ∧ r.ends.length < maxNesting := by
  obtain ⟨hdeep, size, length, _, _, _, hlimit, rfl⟩ := (start_eq_ok hr).mp h
  refine ⟨fun e he => ?_, rfl, hdeep⟩
  cases he with
  | head => exact Nat.le_trans hlimit hr.limit_le
  | tail _ he => exact hr e he

-- What is read between the two ends of a document is its body and the byte that ends it.
theorem framed_of_ends {r s u v : Reader} (hr : r.Bounded) {body : ByteArray} {x y : Unit}
    (hstart : start r = .ok x s) (hbody : s.Holds (body ++ [0].toByteArray))
    (hpast : Past s u (body ++ [0].toByteArray)) (hfinish : finish u = .ok y v) :
    ∃ size : Int32, size.toInt = body.size + 5 ∧ r.Holds (framed size body) ∧
      Past r v (framed size body) := by
  obtain ⟨_, size, length, hlength, _, hword, hlimit, rfl⟩ := (start_eq_ok hr).mp hstart
  obtain ⟨hends, hv⟩ := finish_eq_ok.mp hfinish
  rw [hpast.ends, hpast.position] at hends
  simp only [skip_position, List.cons.injEq, ByteArray.size_append, List.size_toByteArray,
    List.length_singleton] at hends
  obtain ⟨hplace, houter⟩ := hends
  have hwhole : length = body.size + 5 := by omega
  refine ⟨size, by omega, ?_, ?_⟩
  · rw [framed, ByteArray.append_assoc, holds_append]
    obtain ⟨_, hheld⟩ := hbody
    refine ⟨hword, ?_, ?_⟩
    · simp only [skip_position, skip_limit, Word.size_int32, ByteArray.size_append,
        List.size_toByteArray, List.length_singleton]
      omega
    · rw [Word.size_int32]
      exact hheld
  · obtain ⟨current, rfl⟩ := hpast
    refine ⟨current, ?_⟩
    rw [hv, ← houter, size_framed]
    simp only [Reader.skip, ByteArray.size_append, List.size_toByteArray, List.length_singleton,
      Reader.mk.injEq, and_true, true_and]
    omega

-- What the parts of the decoder have read, in that many steps at most, is what the grammar says.
structure ReadsSoundly (steps : Nat) : Prop where
  value : ∀ {r s : Reader} {t : Tag} {v : Value}, r.Bounded → r.position ≤ r.limit →
    Registry.standard.readWith steps (codecOf t) r = .ok v s →
      ∃ text, Payload (maxNesting - r.ends.length) t text v ∧ r.Holds text ∧ Past r s text
  document : ∀ {r s : Reader} {v : Value}, r.Bounded →
    Registry.standard.readDocument steps r = .ok v s →
      ∃ text, Payload (maxNesting - r.ends.length) .document text v ∧ r.Holds text ∧ Past r s text
  array : ∀ {r s : Reader} {v : Value}, r.Bounded →
    Registry.standard.readArray steps r = .ok v s →
      ∃ text, Payload (maxNesting - r.ends.length) .array text v ∧ r.Holds text ∧ Past r s text
  fields : ∀ {r s : Reader} {d d' : Document}, r.Bounded →
    Registry.standard.readFields steps d r = .ok d' s →
      ∃ body fields, Fields (maxNesting - r.ends.length) body fields ∧
        r.Holds (body ++ [0].toByteArray) ∧ Past r s (body ++ [0].toByteArray) ∧
        d' = fields.foldl (fun d field => d.insert field.1 field.2) d
  items : ∀ {r s : Reader} {items : List Value}, r.Bounded →
    Registry.standard.readItems steps r = .ok items s →
      ∃ body fields, Fields (maxNesting - r.ends.length) body fields ∧
        r.Holds (body ++ [0].toByteArray) ∧ Past r s (body ++ [0].toByteArray) ∧
        items = fields.map (·.2)

theorem readWith_scalar (r : Registry) (steps : Nat) (scalar : Scalar) :
    r.readWith steps (.scalar scalar) = scalar.read := by
  cases steps <;> rfl

theorem readWith_null (r : Registry) (steps : Nat) :
    r.readWith steps .null = (do Reader.null; return .null) := by
  cases steps <;> rfl

theorem plain_read_sound {r s : Reader} (hr : r.Bounded) (hplace : r.position ≤ r.limit)
    {levels steps : Nat} {t : Tag} (hdocument : t ≠ .document) (harray : t ≠ .array) {v : Value}
    (h : Registry.standard.readWith steps (codecOf t) r = .ok v s) :
    ∃ text, Payload levels t text v ∧ r.Holds text ∧ Past r s text := by
  cases hcodec : codecOf t with
  | scalar scalar =>
      rw [hcodec, readWith_scalar] at h
      obtain ⟨text, hpayload, htext, rfl⟩ := scalar_read_sound hr hcodec h
      exact ⟨text, hpayload, htext, .skip r text⟩
  | null =>
      rw [hcodec, readWith_null] at h
      simp only [bind_eq_ok, null_eq_ok, pure_eq_ok] at h
      obtain ⟨_, _, ⟨_, rfl⟩, rfl, rfl⟩ := h
      have hnull : t = .null := by
        cases t <;> cases hcodec
        rfl
      subst hnull
      exact ⟨_, .null, holds_empty hplace, .refl _⟩
  | _ => cases t <;> cases hcodec <;> contradiction

-- The announcement of an element, up to the place where its payload begins.
theorem element_read_sound {r s u : Reader} (hr : r.Bounded) {t : Tag} {name : String}
    (htag : tag r = .ok (some t) s) (hname : Reader.name s = .ok name u) :
    Writer.hasZeroByte name = false ∧ u.current = some t ∧
      r.Holds (announced t name) ∧ Past r u (announced t name) := by
  obtain ⟨hcode, hs⟩ := (tag_eq_some hr).mp htag
  have hbounded : s.Bounded := by
    rw [hs]
    exact hr
  obtain ⟨hzero, htext, rfl⟩ := (name_eq_ok hbounded).mp hname
  subst hs
  refine ⟨hzero, rfl, holds_append.mpr ⟨hcode, htext⟩, some t, ?_⟩
  simp only [Reader.skip, size_announced, Reader.mk.injEq, and_true, true_and]
  omega

-- An element and what follows it, up to the end of the document, stand one after the other.
theorem element_joined {r u w s : Reader} {announcement payload rest last : ByteArray}
    (hannounced : r.Holds announcement) (hu : Past r u announcement) (hpayload : u.Holds payload)
    (hw : Past u w payload) (hrest : w.Holds (rest ++ last)) (hs : Past w s (rest ++ last)) :
    r.Holds (announcement ++ (payload ++ rest) ++ last) ∧
      Past r s (announcement ++ (payload ++ rest) ++ last) := by
  rw [ByteArray.append_assoc, ByteArray.append_assoc]
  exact ⟨hu.holds.mpr ⟨hannounced, hw.holds.mpr ⟨hpayload, hrest⟩⟩, hu.trans (hw.trans hs)⟩

-- Where no element follows, the document ends.
theorem end_read_sound {r u : Reader} (hr : r.Bounded) (htag : tag r = .ok none u) :
    r.Holds (ByteArray.empty ++ [0].toByteArray) ∧
      Past r u (ByteArray.empty ++ [0].toByteArray) := by
  obtain ⟨hzero, rfl⟩ := (tag_eq_none hr).mp htag
  rw [ByteArray.empty_append]
  exact ⟨hzero, none, rfl⟩

-- An element is read in front of those that are read behind it.
theorem ReadsSoundly.element {steps : Nat} (ih : ReadsSoundly steps) {r u w w' x : Reader}
    {t : Tag} {name : String} {codec : Codec} {v : Value} (hr : r.Bounded)
    (htag : tag r = .ok (some t) u) (hname : Reader.name u = .ok name w)
    (hcodec : Registry.standard.currentCodec w = .ok codec w')
    (hvalue : Registry.standard.readWith steps codec w' = .ok v x) :
    x.Bounded ∧ ∀ {s : Reader} {rest : ByteArray} {fields : List (String × Value)},
      Fields (maxNesting - x.ends.length) rest fields → x.Holds (rest ++ [0].toByteArray) →
        Past x s (rest ++ [0].toByteArray) →
          ∃ body, Fields (maxNesting - r.ends.length) body ((name, v) :: fields) ∧
            r.Holds (body ++ [0].toByteArray) ∧ Past r s (body ++ [0].toByteArray) := by
  obtain ⟨hclean, hcurrent, hannounced, hw⟩ := element_read_sound hr htag hname
  rw [currentCodec_standard hcurrent] at hcodec
  cases hcodec
  obtain ⟨payload, hpayload, hheld, hx⟩ :=
    ih.value (hw.bounded hr) (hw.within hannounced) hvalue
  refine ⟨hx.bounded (hw.bounded hr), fun hgrammar hend hs => ?_⟩
  rw [hx.ends, hw.ends] at hgrammar
  rw [hw.ends] at hpayload
  obtain ⟨hwhole, hpast⟩ := element_joined hannounced hw hheld hx hend hs
  exact ⟨_, .cons hclean hpayload hgrammar, hwhole, hpast⟩

theorem readsSoundly_zero : ReadsSoundly 0 where
  value := by
    intro r s t v hr hplace h
    by_cases hdocument : t = .document
    · subst hdocument
      cases h
    by_cases harray : t = .array
    · subst harray
      cases h
    exact plain_read_sound hr hplace hdocument harray h
  document := by
    intro r s v _ h
    cases h
  array := by
    intro r s v _ h
    cases h
  fields := by
    intro r s d d' _ h
    cases h
  items := by
    intro r s items _ h
    cases h

theorem readsSoundly_succ {steps : Nat} (ih : ReadsSoundly steps) : ReadsSoundly (steps + 1) where
  value := by
    intro r s t v hr hplace h
    by_cases hdocument : t = .document
    · subst hdocument
      exact ih.document hr h
    by_cases harray : t = .array
    · subst harray
      exact ih.array hr h
    exact plain_read_sound hr hplace hdocument harray h
  document := by
    intro r s v hr h
    simp only [Registry.readDocument, bind_eq_ok, pure_eq_ok] at h
    obtain ⟨_, u, hstart, d, w, hfields, _, _, hfinish, rfl, rfl⟩ := h
    obtain ⟨hu, hdepth, hdeep⟩ := start_bounded hr hstart
    obtain ⟨body, fields, hgrammar, hheld, hpast, rfl⟩ := ih.fields hu hfields
    obtain ⟨size, hsize, hframed, hwhole⟩ := framed_of_ends hr hstart hheld hpast hfinish
    have hlevels : maxNesting - r.ends.length = (maxNesting - u.ends.length) + 1 := by omega
    rw [hlevels, ← Document.ofList, Document.ofList_eq_denoted]
    exact ⟨_, .document size hsize hgrammar, hframed, hwhole⟩
  array := by
    intro r s v hr h
    simp only [Registry.readArray, bind_eq_ok, pure_eq_ok] at h
    obtain ⟨_, u, hstart, items, w, hitems, _, _, hfinish, rfl, rfl⟩ := h
    obtain ⟨hu, hdepth, hdeep⟩ := start_bounded hr hstart
    obtain ⟨body, fields, hgrammar, hheld, hpast, rfl⟩ := ih.items hu hitems
    obtain ⟨size, hsize, hframed, hwhole⟩ := framed_of_ends hr hstart hheld hpast hfinish
    have hlevels : maxNesting - r.ends.length = (maxNesting - u.ends.length) + 1 := by omega
    rw [hlevels]
    exact ⟨_, .array size hsize hgrammar, hframed, hwhole⟩
  fields := by
    intro r s d d' hr h
    simp only [Registry.readFields, bind_eq_ok] at h
    obtain ⟨found, u, htag, h⟩ := h
    cases found with
    | none =>
        obtain ⟨rfl, rfl⟩ := pure_eq_ok.mp h
        obtain ⟨hzero, hpast⟩ := end_read_sound hr htag
        exact ⟨_, [], .nil, hzero, hpast, rfl⟩
    | some t =>
        simp only [bind_eq_ok] at h
        obtain ⟨name, w, hname, codec, w', hcodec, v, x, hvalue, hrest⟩ := h
        obtain ⟨hx, hjoin⟩ := ih.element hr htag hname hcodec hvalue
        obtain ⟨rest, fields, hgrammar, hend, hs, hd⟩ := ih.fields hx hrest
        obtain ⟨body, hbody, hheld, hpast⟩ := hjoin hgrammar hend hs
        exact ⟨body, _, hbody, hheld, hpast, hd⟩
  items := by
    intro r s items hr h
    simp only [Registry.readItems, bind_eq_ok] at h
    obtain ⟨found, u, htag, h⟩ := h
    cases found with
    | none =>
        obtain ⟨rfl, rfl⟩ := pure_eq_ok.mp h
        obtain ⟨hzero, hpast⟩ := end_read_sound hr htag
        exact ⟨_, [], .nil, hzero, hpast, rfl⟩
    | some t =>
        simp only [bind_eq_ok, pure_eq_ok] at h
        obtain ⟨name, w, hname, codec, w', hcodec, v, x, hvalue, others, y, hrest, rfl, rfl⟩ := h
        obtain ⟨hx, hjoin⟩ := ih.element hr htag hname hcodec hvalue
        obtain ⟨rest, fields, hgrammar, hend, hs, rfl⟩ := ih.items hx hrest
        obtain ⟨body, hbody, hheld, hpast⟩ := hjoin hgrammar hend hs
        exact ⟨body, _, hbody, hheld, hpast, rfl⟩

theorem readsSoundly (steps : Nat) : ReadsSoundly steps := by
  induction steps with
  | zero => exact readsSoundly_zero
  | succ steps ih => exact readsSoundly_succ ih

end DocWire.Wire

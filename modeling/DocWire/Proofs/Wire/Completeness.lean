import DocWire.Proofs.Wire.Soundness

namespace DocWire.Wire

open Outcome Reader

-- The two ends of a document are found where its size says, whatever reads the body between them.
theorem ends_of_framed {r : Reader} (hr : r.Bounded) (hdeep : r.ends.length < maxNesting)
    {size : Int32} {body : ByteArray} (hsize : size.toInt = body.size + 5)
    (h : r.Holds (framed size body)) :
    ∃ s, start r = .ok () s ∧ s.ends.length = r.ends.length + 1 ∧
      s.Holds (body ++ [0].toByteArray) ∧
      ∀ u, Past s u (body ++ [0].toByteArray) →
        ∃ v, finish u = .ok () v ∧ Past r v (framed size body) := by
  have hlimit := h.1
  rw [size_framed] at hlimit
  rw [framed, ByteArray.append_assoc, holds_append] at h
  obtain ⟨hword, hbody⟩ := h
  have hstart : start r =
      .ok () { r.skip 4 with ends := (r.position + (body.size + 5)) :: r.ends } :=
    (start_eq_ok hr).mpr
      ⟨hdeep, size, body.size + 5, by omega, by omega, hword, hlimit, rfl⟩
  refine ⟨_, hstart, rfl, ⟨?_, ?_⟩, fun u hu => ?_⟩
  · simp only [limit, List.headD_cons, skip_position, ByteArray.size_append, List.size_toByteArray,
      List.length_singleton]
    omega
  · rw [Word.size_int32] at hbody
    exact hbody.2
  · obtain ⟨current, rfl⟩ := hu
    refine ⟨{ r.skip (body.size + 5) with current := current }, finish_eq_ok.mpr ⟨?_, ?_⟩,
      current, ?_⟩
    · simp only [Reader.skip, ByteArray.size_append, List.size_toByteArray, List.length_singleton]
      congr 1
      omega
    · simp only [Reader.skip, ByteArray.size_append, List.size_toByteArray, List.length_singleton,
        Reader.mk.injEq, and_true, true_and]
      omega
    · rw [size_framed]

-- The announcement of an element is read up to the place where its payload begins.
theorem element_announced {r : Reader} (hr : r.Bounded) {t : Tag} {name : String}
    (hclean : Writer.hasZeroByte name = false)
    (h : r.Holds (announced t name)) :
    ∃ s u, tag r = .ok (some t) s ∧ Reader.name s = .ok name u ∧ u.current = some t ∧
      Past r u (announced t name) := by
  obtain ⟨hcode, hname⟩ := holds_append.mp h
  have htag := (tag_eq_some hr).mpr ⟨hcode, rfl⟩
  have hs : ({ r.skip 1 with current := some t } : Reader).Bounded := hr
  have htext := (name_eq_ok hs).mpr ⟨hclean, hname, rfl⟩
  refine ⟨_, _, htag, htext, rfl, some t, ?_⟩
  simp only [Reader.skip, size_announced, Reader.mk.injEq, and_true, true_and]
  omega

-- The scalar of a payload is read wherever its bytes are held.
theorem scalar_read {r : Reader} (hr : r.Bounded) {levels : Nat} {t : Tag} {text : ByteArray}
    {v : Value} {scalar : Scalar} (ht : codecOf t = .scalar scalar) (h : Payload levels t text v)
    (htext : r.Holds text) : scalar.read r = .ok v (r.skip text.size) := by
  cases h <;> cases ht <;> simp only [Scalar.read, bind_eq_ok, pure_eq_ok]
  case double d =>
    exact ⟨d, _, (double_eq_ok hr).mpr ⟨htext, rfl⟩, rfl, rfl⟩
  case string text size hsize =>
    refine ⟨text, _, (string_eq_ok hr).mpr ⟨size, hsize, htext, rfl⟩, rfl, ?_⟩
    rw [ByteArray.size_append, Word.size_int32, size_terminated]
    congr 1
    omega
  case binary b size hsize =>
    refine ⟨b, _, (binary_eq_ok hr).mpr ⟨size, hsize, htext, rfl⟩, rfl, ?_⟩
    simp only [ByteArray.size_append, Word.size_int32, List.size_toByteArray, List.length_singleton]
    congr 1
    omega
  case objectId id =>
    refine ⟨id, _, (objectId_eq_ok hr).mpr ⟨htext, rfl⟩, rfl, ?_⟩
    rw [ObjectId.size_toBytes]
  case boolean b =>
    exact ⟨b, _, (boolean_eq_ok hr).mpr ⟨htext, rfl⟩, rfl, rfl⟩
  case dateTime time =>
    exact ⟨time, _, (dateTime_eq_ok hr).mpr ⟨htext, rfl⟩, rfl, rfl⟩
  case int32 n =>
    exact ⟨n, _, (int32_eq_ok hr).mpr ⟨htext, rfl⟩, rfl, rfl⟩
  case int64 n =>
    exact ⟨n, _, (int64_eq_ok hr).mpr ⟨htext, rfl⟩, rfl, rfl⟩

theorem readWith_plain {r : Reader} (hr : r.Bounded) (levels : Nat) {steps : Nat} {t : Tag}
    {text : ByteArray} {v : Value} {scalar : Scalar} (ht : codecOf t = .scalar scalar)
    (h : Payload levels t text v) (htext : r.Holds text) :
    ∃ s, Registry.standard.readWith steps (codecOf t) r = .ok v s ∧ Past r s text := by
  refine ⟨_, ?_, .skip r text⟩
  rw [ht, readWith_scalar]
  exact scalar_read hr ht h htext

mutual

-- The decoder reads every text of the grammar where it is held: no step of it runs out, because
-- each takes at least one of the bytes.
theorem payload_read (steps : Nat) {levels : Nat} {t : Tag} {text : ByteArray} {v : Value}
    (h : Payload levels t text v) {r : Reader} (hr : r.Bounded)
    (hlevels : r.ends.length + levels ≤ maxNesting) (hnull : t = .null → r.current = some .null)
    (hsteps : text.size ≤ steps) (htext : r.Holds text) :
    ∃ s, Registry.standard.readWith steps (codecOf t) r = .ok v s ∧ Past r s text := by
  cases h with
  | null =>
      refine ⟨r, ?_, .refl r⟩
      rw [codecOf, readWith_null]
      simp only [bind_eq_ok, null_eq_ok]
      exact ⟨(), r, ⟨hnull rfl, rfl⟩, rfl⟩
  | document size hsize hbody =>
      rw [size_framed] at hsteps
      obtain ⟨steps, rfl⟩ := Nat.exists_eq_add_of_le' (show 2 ≤ steps by omega)
      obtain ⟨s, hstart, hdepth, hheld, hfinish⟩ := ends_of_framed hr (by omega) hsize htext
      obtain ⟨hs, _, _⟩ := start_bounded hr hstart
      obtain ⟨hfields, _⟩ := fields_read steps hbody hs (by omega) (by omega) hheld
      obtain ⟨u, hread, hu⟩ := hfields .empty
      rw [← Document.ofList, Document.ofList_eq_denoted] at hread
      obtain ⟨w, hleft, hw⟩ := hfinish u hu
      refine ⟨w, ?_, hw⟩
      change Registry.standard.readDocument (steps + 1) r = _
      simp only [Registry.readDocument, bind_eq_ok, pure_eq_ok]
      exact ⟨(), s, hstart, _, u, hread, (), w, hleft, rfl, rfl⟩
  | array size hsize hbody =>
      rw [size_framed] at hsteps
      obtain ⟨steps, rfl⟩ := Nat.exists_eq_add_of_le' (show 2 ≤ steps by omega)
      obtain ⟨s, hstart, hdepth, hheld, hfinish⟩ := ends_of_framed hr (by omega) hsize htext
      obtain ⟨hs, _, _⟩ := start_bounded hr hstart
      obtain ⟨_, u, hread, hu⟩ := fields_read steps hbody hs (by omega) (by omega) hheld
      obtain ⟨w, hleft, hw⟩ := hfinish u hu
      refine ⟨w, ?_, hw⟩
      change Registry.standard.readArray (steps + 1) r = _
      simp only [Registry.readArray, bind_eq_ok, pure_eq_ok]
      exact ⟨(), s, hstart, _, u, hread, (), w, hleft, rfl, rfl⟩
  | double d => exact readWith_plain hr levels rfl (.double d) htext
  | string text size hsize => exact readWith_plain hr levels rfl (.string text size hsize) htext
  | binary b size hsize => exact readWith_plain hr levels rfl (.binary b size hsize) htext
  | objectId id => exact readWith_plain hr levels rfl (.objectId id) htext
  | boolean b => exact readWith_plain hr levels rfl (.boolean b) htext
  | dateTime time => exact readWith_plain hr levels rfl (.dateTime time) htext
  | int32 n => exact readWith_plain hr levels rfl (.int32 n) htext
  | int64 n => exact readWith_plain hr levels rfl (.int64 n) htext
termination_by steps

theorem fields_read (steps : Nat) {levels : Nat} {body : ByteArray}
    {fields : List (String × Value)} (h : Fields levels body fields) {r : Reader} (hr : r.Bounded)
    (hlevels : r.ends.length + levels ≤ maxNesting) (hsteps : body.size + 1 ≤ steps)
    (hbody : r.Holds (body ++ [0].toByteArray)) :
    (∀ d : Document, ∃ s, Registry.standard.readFields steps d r =
        .ok (fields.foldl (fun d field => d.insert field.1 field.2) d) s ∧
        Past r s (body ++ [0].toByteArray)) ∧
      ∃ s, Registry.standard.readItems steps r = .ok (fields.map (·.2)) s ∧
        Past r s (body ++ [0].toByteArray) := by
  obtain ⟨steps, rfl⟩ := Nat.exists_eq_add_of_le' (show 1 ≤ steps by omega)
  cases h with
  | nil =>
      rw [ByteArray.empty_append] at hbody ⊢
      have htag := (tag_eq_none hr).mpr ⟨hbody, rfl⟩
      refine ⟨fun d => ⟨_, ?_, none, rfl⟩, _, ?_, none, rfl⟩
      · simp only [Registry.readFields, bind_eq_ok]
        exact ⟨none, _, htag, rfl⟩
      · simp only [Registry.readItems, bind_eq_ok]
        exact ⟨none, _, htag, rfl⟩
  | @cons _ t name payload rest v fields hclean hpayload hrest =>
      simp only [ByteArray.size_append, size_announced] at hsteps
      rw [ByteArray.append_assoc, ByteArray.append_assoc] at hbody ⊢
      obtain ⟨s, u, htag, hname, hcurrent, hu⟩ :=
        element_announced hr hclean (holds_append.mp hbody).1
      obtain ⟨_, hbody⟩ := hu.holds.mp hbody
      obtain ⟨hheld, _⟩ := holds_append.mp hbody
      obtain ⟨w, hvalue, hw⟩ := payload_read steps hpayload (hu.bounded hr)
        (by rw [hu.ends]; exact hlevels) (by rintro rfl; exact hcurrent) (by omega) hheld
      obtain ⟨_, hend⟩ := hw.holds.mp hbody
      obtain ⟨hfields, x, hitems, hx⟩ :=
        fields_read steps hrest (hw.bounded (hu.bounded hr))
          (by rw [hw.ends, hu.ends]; exact hlevels) (by omega) hend
      refine ⟨fun d => ?_, x, ?_, hu.trans (hw.trans hx)⟩
      · obtain ⟨y, hread, hy⟩ := hfields (d.insert name v)
        refine ⟨y, ?_, hu.trans (hw.trans hy)⟩
        simp only [Registry.readFields, bind_eq_ok]
        refine ⟨some t, s, htag, ?_⟩
        simp only [bind_eq_ok]
        exact ⟨name, u, hname, _, u, currentCodec_standard hcurrent, v, w, hvalue, hread⟩
      · simp only [Registry.readItems, bind_eq_ok]
        refine ⟨some t, s, htag, ?_⟩
        simp only [bind_eq_ok]
        have hcodec := currentCodec_standard hcurrent
        exact ⟨name, u, hname, _, u, hcodec, v, w, hvalue, _, x, hitems, rfl⟩
termination_by steps

end

end DocWire.Wire

import DocWire.Proofs.Document.Shape
import DocWire.Proofs.Wire.Completeness

namespace DocWire.Wire

open Outcome Reader

theorem bounded_ofBytes (bytes : ByteArray) : (ofBytes bytes).Bounded := by
  intro e he
  cases he

theorem extract_append_rest {bytes : ByteArray} {size : Nat} (h : size ≤ bytes.size) :
    bytes.extract 0 size ++ bytes.extract size bytes.size = bytes := by
  rw [← ByteArray.extract_eq_extract_append_extract size (Nat.zero_le _) h,
    ByteArray.extract_zero_size]

theorem ofBytes_holds {bytes text : ByteArray} :
    (ofBytes bytes).Holds text ↔ ∃ rest, bytes = text ++ rest := by
  simp only [Holds, ofBytes, limit, List.headD_nil, Nat.zero_add]
  constructor
  · rintro ⟨hle, heq⟩
    refine ⟨bytes.extract text.size bytes.size, ?_⟩
    have hsplit := extract_append_rest hle
    rw [heq] at hsplit
    exact hsplit.symm
  · rintro ⟨rest, rfl⟩
    refine ⟨?_, ByteArray.extract_append_eq_left rfl⟩
    rw [ByteArray.size_append]
    exact Nat.le_add_right _ _

theorem decodeDocument_eq_ok {r s : Reader} {d : Document} :
    Registry.standard.decodeDocument r = .ok d s ↔
      Registry.standard.readWith (Registry.steps r) (codecOf .document) r =
        .ok (.document d) s := by
  simp only [Registry.decodeDocument, Registry.decodeWith]
  constructor
  · intro h
    obtain ⟨v, u, hread, h⟩ := bind_eq_ok.mp h
    obtain ⟨_, _, hget, hread⟩ := bind_eq_ok.mp hread
    obtain ⟨rfl, rfl⟩ := get_eq_ok.mp hget
    cases v with
    | document found =>
        obtain ⟨rfl, rfl⟩ := pure_eq_ok.mp h
        exact hread
    | _ => exact absurd h throw_ne_ok
  · intro h
    exact bind_eq_ok.mpr ⟨_, s, bind_eq_ok.mpr ⟨r, r, get_eq_ok.mpr ⟨rfl, rfl⟩, h⟩, rfl⟩

theorem document_read_sound {bytes : ByteArray} {d : Document} {r : Reader}
    (h : Registry.standard.decodeDocument (ofBytes bytes) = .ok d r) :
    ∃ text rest, bytes = text ++ rest ∧ IsDocument text d ∧ r.position = text.size := by
  have hread := decodeDocument_eq_ok.mp h
  obtain ⟨text, hgrammar, htext, hpast⟩ :=
    (readsSoundly _).value (bounded_ofBytes bytes) (Nat.zero_le _) hread
  obtain ⟨rest, hbytes⟩ := ofBytes_holds.mp htext
  refine ⟨text, rest, hbytes, hgrammar, ?_⟩
  rw [hpast.position]
  exact Nat.zero_add _

-- A document that stands in no other one is read wherever it is held.
theorem document_read_held {r : Reader} {text : ByteArray} {d : Document} (hr : r.Bounded)
    (houtside : r.ends = []) (h : IsDocument text d) (htext : r.Holds text) :
    ∃ s, Registry.standard.decodeDocument r = .ok d s ∧ Past r s text := by
  have hle := htext.1
  have hlevels : r.ends.length + maxNesting ≤ maxNesting := by
    rw [houtside]
    exact Nat.le_of_eq (Nat.zero_add _)
  have hsteps : text.size ≤ Registry.steps r := by
    simp only [Registry.steps, remaining]
    omega
  obtain ⟨s, hread, hpast⟩ := payload_read _ h hr hlevels (by simp) hsteps htext
  exact ⟨s, decodeDocument_eq_ok.mpr hread, hpast⟩

theorem document_read {text : ByteArray} {d : Document} (h : IsDocument text d) (rest : ByteArray) :
    ∃ r, Registry.standard.decodeDocument (ofBytes (text ++ rest)) = .ok d r ∧
      r.position = text.size := by
  obtain ⟨r, hread, hpast⟩ :=
    document_read_held (bounded_ofBytes _) rfl h (ofBytes_holds.mpr ⟨rest, rfl⟩)
  refine ⟨r, hread, ?_⟩
  rw [hpast.position]
  exact Nat.zero_add _

-- A document begins with its own size.
theorem IsDocument.size {text : ByteArray} {d : Document} (h : IsDocument text d) :
    ∃ size tail, text = Word.int32 size ++ tail ∧ size.toInt = text.size := by
  unfold IsDocument at h
  cases h with
  | @document _ body _ size hsize _ =>
      refine ⟨size, body ++ [0].toByteArray, ?_, ?_⟩
      · rw [framed, ByteArray.append_assoc]
      · rw [size_framed]
        omega

-- Two documents that begin the same bytes are of one size.
theorem IsDocument.size_unique {text other rest more : ByteArray} {d d' : Document}
    (htext : IsDocument text d) (hother : IsDocument other d') (h : text ++ rest = other ++ more) :
    text.size = other.size := by
  obtain ⟨size, tail, heq, hsize⟩ := htext.size
  obtain ⟨size', tail', heq', hsize'⟩ := hother.size
  rw [heq, heq', ByteArray.append_assoc, ByteArray.append_assoc] at h
  have hword := ByteArray.append_inj_left h (by rw [Word.size_int32, Word.size_int32])
  have hsame := congrArg Word.toInt32 hword
  rw [Word.toInt32_int32, Word.toInt32_int32] at hsame
  rw [hsame] at hsize
  omega

-- The decoder accepts the documents of the grammar and nothing else. It stops where the document
-- ends, what follows the document does not matter, and no part of it is taken for the whole.
theorem decodeDocument_accepts (bytes : ByteArray) :
    (∀ d, (∃ r, Registry.standard.decodeDocument (ofBytes bytes) = .ok d r) ↔
        ∃ text rest, bytes = text ++ rest ∧ IsDocument text d) ∧
      ∀ d r, Registry.standard.decodeDocument (ofBytes bytes) = .ok d r →
        ∃ text rest, bytes = text ++ rest ∧ IsDocument text d ∧ r.position = text.size ∧
          (∀ other, ∃ s, Registry.standard.decodeDocument (ofBytes (text ++ other)) = .ok d s ∧
            s.position = text.size) ∧
          ∀ count < text.size, ∃ e s,
            Registry.standard.decodeDocument (ofBytes (text.extract 0 count)) = .error e s := by
  refine ⟨fun d => ⟨?_, ?_⟩, fun d r h => ?_⟩
  · rintro ⟨r, h⟩
    obtain ⟨text, rest, hbytes, hgrammar, _⟩ := document_read_sound h
    exact ⟨text, rest, hbytes, hgrammar⟩
  · rintro ⟨text, rest, rfl, hgrammar⟩
    obtain ⟨r, h, _⟩ := document_read hgrammar rest
    exact ⟨r, h⟩
  · obtain ⟨text, rest, hbytes, hgrammar, hplace⟩ := document_read_sound h
    refine ⟨text, rest, hbytes, hgrammar, hplace, document_read hgrammar, fun count hcount => ?_⟩
    cases hshort : Registry.standard.decodeDocument (ofBytes (text.extract 0 count)) with
    | error e s => exact ⟨e, s, rfl⟩
    | ok d' s =>
        obtain ⟨short, more, hextract, hfound, _⟩ := document_read_sound hshort
        have hsize := congrArg ByteArray.size hextract
        rw [ByteArray.size_extract, ByteArray.size_append] at hsize
        have hsplit := ByteArray.extract_eq_extract_append_extract (a := text) (i := 0) count
          (Nat.zero_le _) (Nat.le_of_lt hcount)
        rw [ByteArray.extract_zero_size, hextract, ByteArray.append_assoc] at hsplit
        have hsame : short.size = text.size := by
          apply hfound.size_unique hgrammar
          rw [← hsplit, ByteArray.append_empty]
        omega

mutual

theorem Payload.distinct {levels : Nat} {t : Tag} {text : ByteArray} {v : Value}
    (h : Payload levels t text v) : v.Throughout Document.Distinct := by
  cases h with
  | document size hsize hbody =>
      rw [← Document.ofList_eq_denoted]
      exact Document.wellFormed_ofList hbody.distinct
  | array size hsize hbody =>
      refine itemsThroughout_iff.mpr fun v hv => ?_
      obtain ⟨field, hfield, rfl⟩ := List.mem_map.mp hv
      exact hbody.distinct field hfield
  | _ => trivial
termination_by text.size
decreasing_by
  all_goals
    rw [size_framed]
    omega

theorem Fields.distinct {levels : Nat} {body : ByteArray} {fields : List (String × Value)}
    (h : Fields levels body fields) :
    ∀ field ∈ fields, field.2.Throughout Document.Distinct := by
  cases h with
  | nil => simp
  | cons hclean hpayload hrest =>
      rw [List.forall_mem_cons]
      exact ⟨hpayload.distinct, hrest.distinct⟩
termination_by body.size
decreasing_by
  all_goals
    simp only [ByteArray.size_append, size_announced]
    omega

end

-- Whatever bytes a document is read from, it is one that could have been put together.
theorem wellFormed_of_decodeDocument {bytes : ByteArray} {d : Document} {r : Reader}
    (h : Registry.standard.decodeDocument (ofBytes bytes) = .ok d r) : d.WellFormed := by
  obtain ⟨text, _, _, hgrammar, _⟩ := document_read_sound h
  exact hgrammar.distinct

end DocWire.Wire

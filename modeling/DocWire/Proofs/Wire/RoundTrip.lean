import DocWire.Proofs.Wire.Acceptance
import DocWire.Proofs.Wire.Encoding

namespace DocWire.Wire

open Writer

-- A document that stands alone is written into an empty buffer, outside of any frame.
theorem document_leaves (d : Document) :
    Leaves (Registry.standard.encodeDocument d).run (onBuffer ByteArray.empty) (d.Writable 0)
      (onBuffer d.rendered) := by
  obtain ⟨fields⟩ := d
  have hempty : (onBuffer ByteArray.empty).frames.isEmpty = true := rfl
  have hstart := leaves_of_eq (startDocument_outside hempty) (openFrame_leaves _ .document)
  have hbody := fields_leaves fields (ByteArray.empty ++ Word.int32 0) 0 0 []
  change Leaves (Writing.document (Registry.standard.writeFields .any fields)).run _ _ _
  rw [Writing.document, run_seq, run_seq, run_token, run_token]
  refine leaves_congr (framed_leaves hstart hbody) Iff.rfl ?_
  simp only [onBuffer, ByteArray.empty_append]
  rfl

theorem toBytes_eq_ok {d : Document} {bytes : ByteArray} :
    Registry.standard.toBytes d = .ok bytes ↔ d.Writable 0 ∧ bytes = d.rendered := by
  have hleaves := document_leaves d
  unfold Registry.toBytes Writing.runOn
  cases hrun : (Registry.standard.encodeDocument d).run (onBuffer ByteArray.empty) with
  | ok u w =>
      obtain ⟨hd, rfl⟩ := (hleaves w).mp hrun
      simp only [Except.ok.injEq, hd, true_and]
      exact eq_comm
  | error e w =>
      have hd : ¬ d.Writable 0 := by
        intro hd
        rw [(hleaves _).mpr ⟨hd, rfl⟩] at hrun
        cases hrun
      simp [hd]

-- What is written of a document that could be put together is a text of the grammar.
theorem isDocument_of_toBytes {d : Document} {text : ByteArray} (hd : d.WellFormed)
    (h : Registry.standard.toBytes d = .ok text) : IsDocument text d := by
  obtain ⟨hwritable, rfl⟩ := toBytes_eq_ok.mp h
  obtain ⟨hnamed, hdepth, hsize⟩ := (d.writable_iff 0 (Nat.zero_le _)).mp hwritable
  exact document_rendered d hdepth hnamed hd hsize

-- A document can be written just when its names, its nesting and its size allow it. What has been
-- written is read to its end, and gives back the document.
theorem toBytes_roundTrip (d : Document) (hd : d.WellFormed) :
    ((∃ bytes, Registry.standard.toBytes d = .ok bytes) ↔
        d.Throughout Document.Named ∧ d.depth ≤ maxNesting ∧ d.rendered.size ≤ Word.maxLength) ∧
      ∀ bytes, Registry.standard.toBytes d = .ok bytes → bytes = d.rendered ∧
        ∃ r, Registry.standard.decodeDocument (Reader.ofBytes bytes) = .ok d r ∧
          r.position = bytes.size := by
  have hwritable := d.writable_iff 0 (Nat.zero_le _)
  rw [Nat.add_zero] at hwritable
  refine ⟨?_, fun bytes h => ?_⟩
  · simp only [toBytes_eq_ok, exists_and_left, exists_eq, and_true]
    exact hwritable
  · obtain ⟨hchecked, rfl⟩ := toBytes_eq_ok.mp h
    obtain ⟨hnamed, hdepth, hsize⟩ := hwritable.mp hchecked
    have hgrammar : IsDocument d.rendered d := document_rendered d hdepth hnamed hd hsize
    obtain ⟨r, hread, hplace⟩ := document_read hgrammar ByteArray.empty
    rw [ByteArray.append_empty] at hread
    exact ⟨rfl, r, hread, hplace⟩

-- A document with a nested document, and with an array that holds a double that is no number.
def mixed : Document :=
  ⟨[("item", .document ⟨[("item", .null)]⟩), ("list", .array [.double ⟨0x7FF8000000000001⟩])]⟩

theorem mixed_roundTrip :
    ∃ bytes r, Registry.standard.toBytes mixed = .ok bytes ∧
      Registry.standard.decodeDocument (Reader.ofBytes bytes) = .ok mixed r ∧
      r.position = bytes.size := by
  have hd : mixed.WellFormed := by
    simp [mixed, Document.WellFormed, Document.Throughout, fieldsThroughout, Value.Throughout,
      itemsThroughout, Document.Distinct, Document.keys]
  obtain ⟨hsucceeds, hreads⟩ := toBytes_roundTrip mixed hd
  have hnamed : mixed.Throughout Document.Named := by
    simp [mixed, Document.Throughout, fieldsThroughout, Value.Throughout, itemsThroughout,
      Document.Named, Document.keys]
  have hsize : mixed.rendered.size ≤ Word.maxLength := by decide
  obtain ⟨bytes, hbytes⟩ := hsucceeds.mpr ⟨hnamed, by decide, hsize⟩
  obtain ⟨_, r, hread, hplace⟩ := hreads bytes hbytes
  exact ⟨bytes, r, hbytes, hread, hplace⟩

end DocWire.Wire

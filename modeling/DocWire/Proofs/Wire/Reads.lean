import DocWire.Proofs.Wire.Acceptance

namespace DocWire.Reader

open Outcome Wire

section

variable {α β : Type}

-- An action that reads a text as what it stands for, wherever it is held outside of documents.
def Reads (x : Action α) (text : ByteArray) (a : α) : Prop :=
  ∀ r : Reader, r.Bounded → r.ends = [] → r.Holds text → ∃ s, x r = .ok a s ∧ Past r s text

theorem Reads.bind {x : Action α} {f : α → Action β} {text rest : ByteArray} {a : α} {b : β}
    (hx : Reads x text a) (hf : Reads (f a) rest b) : Reads (x >>= f) (text ++ rest) b := by
  intro r hr houtside h
  obtain ⟨s, hread, hs⟩ := hx r hr houtside (holds_append.mp h).1
  obtain ⟨_, hrest⟩ := hs.holds.mp h
  obtain ⟨t, hthen, ht⟩ := hf s (hs.bounded hr) (hs.ends.trans houtside) hrest
  refine ⟨t, ?_, hs.trans ht⟩
  rw [bind_of_ok hread, hthen]

theorem Reads.map {x : Action α} {text : ByteArray} {a : α} (hx : Reads x text a) (f : α → β) :
    Reads (x >>= fun a => pure (f a)) text (f a) := by
  intro r hr houtside h
  obtain ⟨s, hread, hs⟩ := hx r hr houtside h
  exact ⟨s, bind_of_ok hread _, hs⟩

-- Such a text is read behind any other bytes and in front of any others.
theorem Reads.found {x : Action α} {text : ByteArray} {a : α} (hx : Reads x text a)
    (prior rest : ByteArray) :
    ∃ s, x ((ofBytes (prior ++ text ++ rest)).skip prior.size) = .ok a s ∧
      s.position = (prior ++ text).size := by
  have hheld : (ofBytes (prior ++ text ++ rest)).Holds (prior ++ text) :=
    ofBytes_holds.mpr ⟨rest, rfl⟩
  have hbounded := bounded_skip (bounded_ofBytes (prior ++ text ++ rest)) prior.size
  obtain ⟨s, hread, hs⟩ := hx _ hbounded rfl (holds_append.mp hheld).2
  refine ⟨s, hread, ?_⟩
  rw [hs.position, skip_position, ByteArray.size_append, ofBytes, Nat.zero_add]

end

theorem int32_reads (n : Int32) : Reads int32 (Word.int32 n) n := by
  intro r hr _ h
  refine ⟨_, (int32_eq_ok hr).mpr ⟨h, rfl⟩, ?_⟩
  rw [← Word.size_int32 n]
  exact .skip r _

theorem name_reads {text : String} (hclean : Writer.hasZeroByte text = false) :
    Reads name (terminated text) text := by
  intro r hr _ h
  refine ⟨_, (name_eq_ok hr).mpr ⟨hclean, h, rfl⟩, ?_⟩
  rw [← size_terminated]
  exact .skip r _

theorem document_reads {text : ByteArray} {d : Document} (h : IsDocument text d) :
    Reads Registry.standard.decodeDocument text d :=
  fun _ hr houtside htext => document_read_held hr houtside h htext

end DocWire.Reader

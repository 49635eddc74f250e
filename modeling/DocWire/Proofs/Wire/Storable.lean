import DocWire.Codec.Encode
import DocWire.Proofs.Wire.Outcome

namespace DocWire

open Outcome

-- A name that a document may have where it is stored.
def StorableName (name : String) : Prop :=
  name.toList.head? ≠ some '$' ∧ '.' ∉ name.toList

-- Only its own names count; the documents inside it may be named freely.
def Document.Storable (d : Document) : Prop :=
  ∀ name ∈ d.keys, StorableName name

namespace Writing

-- A program that never comes to its end, whatever has been written before it.
def Refuses {α : Type} (x : Writing α) : Prop :=
  ∀ w a u, x.run w ≠ .ok a u

variable {α β : Type} {x : Writing α} {f : α → Writing β}

theorem Refuses.bind (hx : x.Refuses) (f : α → Writing β) : (x >>= f).Refuses := by
  intro w b u h
  change (x.bind f).run w = _ at h
  rw [run_bind] at h
  obtain ⟨a, v, hfirst, _⟩ := bind_eq_ok.mp h
  exact hx w a v hfirst

theorem refuses_bind (x : Writing α) (hf : ∀ a, (f a).Refuses) : (x >>= f).Refuses := by
  intro w b u h
  change (x.bind f).run w = _ at h
  rw [run_bind] at h
  obtain ⟨a, v, _, hrest⟩ := bind_eq_ok.mp h
  exact hf a v b u hrest

theorem Refuses.document {fields : Writing Unit} (h : fields.Refuses) :
    (Writing.document fields).Refuses :=
  refuses_bind _ fun _ => h.bind _

theorem Refuses.runOn (h : x.Refuses) (buffer : ByteArray) :
    ∃ e after, x.runOn buffer = (.error e, after) := by
  unfold Writing.runOn
  cases hrun : x.run (Writer.onBuffer buffer) with
  | ok a w => exact (h _ _ _ hrun).elim
  | error e w => exact ⟨e, w.buffer, rfl⟩

end Writing

namespace Registry

open Writing

end Registry

end DocWire

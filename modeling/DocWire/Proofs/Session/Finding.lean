import DocWire.Proofs.Document.Lookup
import DocWire.Proofs.Message.RoundTrip
import DocWire.Proofs.Session.Modification
import DocWire.Proofs.Wire.Canonical

namespace DocWire

open Wire

variable {ω κ α : Type}

-- A document that a writer of the standard codecs takes, unless it is too long.
structure Document.Legible (d : Document) : Prop where
  wellFormed : d.WellFormed
  named : d.Throughout Document.Named
  shallow : d.depth ≤ maxNesting

namespace Document

-- A document inside of another one has what that one has.
theorem Legible.nested {d inner : Document} {key : String} (h : d.Legible)
    (hinner : d.get? key = some (.document inner)) : inner.Legible := by
  have hmem := mem_of_get? hinner
  obtain ⟨_, hwellFormed⟩ := wellFormed_iff.mp h.wellFormed
  obtain ⟨_, hnamed⟩ := throughout_iff.mp h.named
  have hshallow : inner.depth ≤ 99 := depth_le_iff.mp h.shallow _ hmem
  exact ⟨hwellFormed _ hmem, hnamed _ hmem, Nat.le_succ_of_le hshallow⟩

end Document

namespace FindAndModify

-- What a decoder makes of the bytes of what was found.
def reading (decoder : Decoder α) (bytes : ByteArray) : Except CommandError (Option α) :=
  match decoder (Reader.ofBytes bytes) with
  | .ok a _ => .ok (some a)
  | .error e _ => .error (.codec e)

-- What comes of a value that a reply tells. A document is handed to the decoder as bytes that mean
-- just this document.
inductive Finds (decoder : Decoder α) : Option Value → Except CommandError (Option α) → Prop where
  | missing : Finds decoder none (.ok none)
  | null : Finds decoder (some .null) (.ok none)
  | document {d : Document} {bytes : ByteArray} {r : Reader}
      (hfits : d.rendered.size ≤ Word.maxLength)
      (hwritten : Registry.standard.toBytes d = .ok bytes)
      (hreads : Registry.standard.decodeDocument (Reader.ofBytes bytes) = .ok d r)
      (hwhole : r.position = bytes.size) :
      Finds decoder (some (.document d)) (reading decoder bytes)
  | tooLong {d : Document} {e : CodecError} (hlong : Word.maxLength < d.rendered.size)
      (he : e.TooLong d.rendered.size) : Finds decoder (some (.document d)) (.error (.codec e))
  | other {v : Value} (hnull : v ≠ .null) (hdocument : ∀ d, v ≠ .document d) :
      Finds decoder (some v) (.error (.invalidReply (.notDocument v)))

-- What somebody is to learn who asked for documents.
def answer : Option Value → Except CommandError (Option Document)
  | none => .ok none
  | some .null => .ok none
  | some (.document d) => .ok (some d)
  | some v => .error (.invalidReply (.notDocument v))

-- The exchange that it comes to with a server.
def exchange (f : FindAndModify α) (encoder : Encoder α) (database : String) (s : Session)
    (command : Document) (server : ServerDescription) : Exchange :=
  ⟨f.message encoder database command s.ids.draw.1 (.ofServer server), s.registry,
    s.registry.decodeDocument, true⟩

-- Among the contacts there is a reply to the command, in which a document stands.
inductive Replied (f : FindAndModify α) (encoder : Encoder α) (database : String) (s : Session)
    (contacts : List Contact) : Document → Prop where
  | read {command d : Document} {server : ServerDescription} {limit : Nat} {reply : ByteArray}
      (hcommand : f.toDocument = .ok command)
      (hserver : s.cluster.select .requiresPrimary .primary = .ok server)
      (hreceived : .used (.received limit (.ok reply)) ∈ contacts)
      (hread : (f.exchange encoder database s command server).readReply reply = .ok d) :
      Replied f encoder database s contacts d

section

variable {f : FindAndModify α} {encoder : Encoder α} {database : String} {s : Session}
  {contacts : List Contact} {d : Document}

-- If such a reply reports success, the document in it is the response of the command.
theorem Replied.response (h : f.Replied encoder database s contacts d) (hsucceeds : Succeeds d)
    {command : Document} (hcommand : f.toDocument = .ok command)
    {outcome : Except CommandError CommandResult}
    (hcontacts : Session.Contacts s .requiresPrimary .primary s.registry.decodeDocument
      (f.message encoder database command) outcome contacts) :
    ∃ result, outcome = .ok result ∧ result.response = d := by
  cases h with
  | read hworded hchosen hreceived hread =>
      cases hcommand.symm.trans hworded
      cases hcontacts with
      | unselected hnone => cases hreceived
      | unconnected hserver => simp at hreceived
      | exchanged hserver heffects =>
          cases hserver.symm.trans hchosen
          simp only [List.mem_cons, List.mem_append, List.mem_map, List.not_mem_nil, or_false,
            reduceCtorEq, false_or, Contact.used.injEq, exists_eq_right] at hreceived
          obtain ⟨_, _, _, _, hconcludes, _⟩ := heffects.of_reply hreceived
          rw [exchange] at hread
          rw [hread] at hconcludes
          cases hconcludes with
          | succeeded server elapsed _ => exact ⟨_, rfl, rfl⟩
          | rejected server elapsed hfails => exact absurd hsucceeds hfails

end

end FindAndModify

end DocWire

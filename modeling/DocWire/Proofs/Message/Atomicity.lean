import DocWire.Message.Reply
import DocWire.Message.Request
import DocWire.Proofs.Wire.Confinement

namespace DocWire

open Outcome

namespace Framing

variable {prior : ByteArray}

theorem append_keeps (bytes : ByteArray) : Preserves (BeginsWith prior) (append bytes) :=
  preserves_modify fun _ h => h.append bytes

theorem write_keeps (x : Writing Unit) : Preserves (BeginsWith prior) (write x) := by
  intro buffer h
  have hwritten := x.runOn_beginsWith h
  unfold write
  split
  · next written hrun =>
    rw [hrun] at hwritten
    exact hwritten
  · next e written hrun =>
    rw [hrun] at hwritten
    exact hwritten

-- What is taken back is all that has been appended.
theorem atomically_error {α : Type} {x : Framing α} {buffer after : ByteArray} {e : CommandError}
    (hx : Preserves (BeginsWith buffer) x) (h : atomically x buffer = .error e after) :
    after = buffer := by
  have hkept := hx buffer (.refl buffer)
  unfold atomically at h
  cases hrun : x buffer with
  | ok a appended =>
      rw [hrun] at h
      cases h
  | error e appended =>
      rw [hrun] at h hkept
      cases h
      exact hkept.extract_size

theorem atomically_ok {α : Type} {x : Framing α} {buffer after : ByteArray} {a : α}
    (hx : Preserves (BeginsWith buffer) x) (h : atomically x buffer = .ok a after) :
    BeginsWith buffer after := by
  have hkept := hx buffer (.refl buffer)
  unfold atomically at h
  cases hrun : x buffer with
  | ok a appended =>
      rw [hrun] at h hkept
      cases h
      exact hkept
  | error e appended =>
      rw [hrun] at h
      cases h

-- An action on a buffer is atomic if it takes back what it has appended when it fails, and else
-- leaves what was there before in front of what it has appended.
structure Atomic (x : Framing Unit) : Prop where
  restores : ∀ {buffer after : ByteArray} {e : CommandError},
    x buffer = .error e after → after = buffer
  prolongs : ∀ {buffer after : ByteArray}, x buffer = .ok () after → BeginsWith buffer after

theorem message_atomic (header : MessageHeader) (limit : Nat) {body : Framing Unit}
    (hbody : ∀ prior, Preserves (BeginsWith prior) body) : Atomic (message header limit body) := by
  have hinner : ∀ prior, Preserves (BeginsWith prior) (do
      let start := (← get).size
      append header.toBytes
      body
      let length := (← get).size - start
      if limit < length ∨ Word.maxLength < length then
        throw (.oversizedMessage length limit)
      else
        modify fun buffer => Writer.patch buffer start (Word.int32 (Int32.ofNat length))) := by
    intro prior
    apply preserves_get_bind
    intro before hbefore
    apply preserves_bind (append_keeps _)
    intro _
    apply preserves_bind (hbody prior)
    intro _
    apply preserves_get_bind
    intro framed _
    dsimp only
    split
    · exact preserves_throw _
    · exact preserves_modify fun buffer hbuffer => hbuffer.patch hbefore.size_le _
  exact ⟨fun h => atomically_error (hinner _) h, fun h => atomically_ok (hinner _) h⟩

end Framing

namespace RequestMessage

variable {prior : ByteArray}

theorem spaceBytes_keeps (r : RequestMessage) : Preserves (BeginsWith prior) r.spaceBytes := by
  unfold spaceBytes
  split
  · exact preserves_throw _
  · exact Framing.append_keeps _

theorem writeBody_keeps (r : RequestMessage) (registry : Registry) :
    Preserves (BeginsWith prior) (r.writeBody registry) := by
  apply preserves_bind (Framing.append_keeps _)
  intro _
  apply preserves_bind r.spaceBytes_keeps
  intro _
  apply preserves_bind (Framing.append_keeps _)
  intro _
  apply preserves_get_bind
  intro before hbefore
  apply preserves_bind (Framing.write_keeps _)
  intro _
  apply preserves_get_bind
  intro written _
  dsimp only
  split
  · have hcut : Preserves (BeginsWith prior)
        (modify fun buffer => buffer.extract 0 before.size : Framing PUnit) :=
      preserves_modify fun _ h => h.truncate hbefore.size_le
    exact preserves_bind hcut fun _ => preserves_throw _
  · exact preserves_pure _

theorem encode_is_atomic (r : RequestMessage) (registry : Registry) :
    Framing.Atomic (r.encode registry) :=
  Framing.message_atomic _ _ fun _ => r.writeBody_keeps registry

end RequestMessage

namespace ReplyMessage

theorem writeDocuments_keeps {prior : ByteArray} (encoder : Encoder Document)
    (documents : List Document) :
    Preserves (BeginsWith prior) (writeDocuments encoder documents) := by
  induction documents with
  | nil => exact preserves_pure _
  | cons d rest ih => exact preserves_bind (Framing.write_keeps _) fun _ => ih

theorem encode_is_atomic (r : ReplyMessage) (encoder : Encoder Document) :
    Framing.Atomic (r.encode encoder) := by
  unfold encode
  split
  · constructor
    · intro buffer after e h
      cases h
      rfl
    · intro buffer after h
      cases h
  · apply Framing.message_atomic
    intro prior
    exact preserves_bind (Framing.append_keeps _) fun _ => writeDocuments_keeps encoder _

end ReplyMessage

-- A message on its way out, with what its documents are written by.
inductive Outgoing where
  | request (r : RequestMessage) (registry : Registry)
  | reply (r : ReplyMessage) (encoder : Encoder Document)

namespace Outgoing

def encode : Outgoing → Framing Unit
  | .request r registry => r.encode registry
  | .reply r encoder => r.encode encoder

-- The messages are tried one after the other, and each of them fails.
inductive AllFail : List Outgoing → ByteArray → ByteArray → Prop where
  | nil (buffer : ByteArray) : AllFail [] buffer buffer
  | cons {m : Outgoing} {rest : List Outgoing} {buffer middle after : ByteArray} {e : CommandError}
      (hfirst : m.encode buffer = .error e middle) (hrest : AllFail rest middle after) :
      AllFail (m :: rest) buffer after

theorem encode_atomic (m : Outgoing) : Framing.Atomic m.encode := by
  cases m with
  | request r registry => exact r.encode_is_atomic registry
  | reply r encoder => exact r.encode_is_atomic encoder

theorem AllFail.buffer_eq {failed : List Outgoing} {buffer after : ByteArray}
    (h : AllFail failed buffer after) : after = buffer := by
  induction h with
  | nil buffer => rfl
  | cons hfirst _ ih =>
      have hmiddle := (encode_atomic _).restores hfirst
      rw [ih, hmiddle]

-- A message that cannot be encoded leaves no trace. One that can is appended to what was there, and
-- it is the same message after any number of failures as before them.
theorem encode_leaves_no_trace (m : Outgoing) (buffer : ByteArray) :
    (∀ e after, m.encode buffer = .error e after → after = buffer) ∧
      (∀ after, m.encode buffer = .ok () after → ∃ appended, after = buffer ++ appended) ∧
      ∀ failed after, AllFail failed buffer after → m.encode after = m.encode buffer := by
  refine ⟨?_, ?_, ?_⟩
  · intro e after h
    exact m.encode_atomic.restores h
  · intro after h
    exact m.encode_atomic.prolongs h
  · intro failed after h
    rw [h.buffer_eq]

end Outgoing

end DocWire

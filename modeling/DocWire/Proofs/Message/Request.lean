import DocWire.Message.Request
import DocWire.Proofs.Message.Framing

namespace DocWire

open Outcome CommandError

-- The result that a command failed with, which only a reply can bring.
def CommandError.result? : CommandError → Option CommandResult
  | .commandFailure result => some result
  | _ => none

def CommandError.HasNoResult (e : CommandError) : Prop :=
  e.result? = none

-- The second word of a message is the number that it goes by.
theorem MessageHeader.wordAt_second (first second : Int32) (rest : ByteArray) :
    wordAt (Word.int32 first ++ (Word.int32 second ++ rest)) 4 = second := by
  have hsecond : (Word.int32 first ++ (Word.int32 second ++ rest)).extract 4 (4 + 4) =
      Word.int32 second := by
    rw [ByteArray.extract_append, Word.size_int32, ByteArray.extract_eq_empty_iff.mpr (by simp),
      ByteArray.empty_append]
    exact ByteArray.extract_append_eq_left (Word.size_int32 second).symm
  rw [wordAt, hsecond, Word.toInt32_int32]

namespace Framing

theorem append_hasNoResult (bytes : ByteArray) : Raises HasNoResult (append bytes) :=
  raises_modify _

theorem write_hasNoResult (x : Writing Unit) : Raises HasNoResult (write x) := by
  intro buffer e after h
  unfold write at h
  split at h
  · cases h
  · cases h
    rfl

theorem atomically_hasNoResult {α : Type} {x : Framing α} (hx : Raises HasNoResult x) :
    Raises HasNoResult (atomically x) := by
  intro buffer e after h
  unfold atomically at h
  split at h
  · cases h
  · next fault appended hrun =>
    cases h
    exact hx buffer e appended hrun

theorem message_hasNoResult (header : MessageHeader) (limit : Nat) {body : Framing Unit}
    (hbody : Raises HasNoResult body) : Raises HasNoResult (message header limit body) := by
  apply atomically_hasNoResult
  refine raises_bind raises_get fun before => ?_
  refine raises_bind (append_hasNoResult _) fun _ => ?_
  refine raises_bind hbody fun _ => ?_
  refine raises_bind raises_get fun framed => ?_
  dsimp only
  split
  · exact raises_throw rfl
  · exact raises_modify _

-- A message on its own begins with its header, in which only the length has changed.
theorem message_header {header : MessageHeader} {limit : Nat} {body : Framing Unit}
    {bytes : ByteArray} (hbody : ∀ prior, Preserves (BeginsWith prior) body)
    (h : message header limit body ByteArray.empty = .ok () bytes) :
    ∃ length rest, bytes = Word.int32 length ++ (Word.int32 header.requestId ++ rest) := by
  obtain ⟨rest, hrest, _, _, _⟩ := message_ok header limit hbody h
  refine ⟨Int32.ofNat (MessageHeader.size + rest.size),
    Word.int32 header.responseTo ++ (Word.int32 header.opCode ++ rest), ?_⟩
  rw [hrest, ByteArray.empty_append]
  simp only [MessageHeader.toBytes, ByteArray.append_assoc]

end Framing

namespace RequestMessage

theorem spaceBytes_hasNoResult (r : RequestMessage) : Raises HasNoResult r.spaceBytes := by
  unfold spaceBytes
  split
  · exact raises_throw rfl
  · exact Framing.append_hasNoResult _

theorem writeBody_hasNoResult (r : RequestMessage) (registry : Registry) :
    Raises HasNoResult (r.writeBody registry) := by
  refine raises_bind (Framing.append_hasNoResult _) fun _ => ?_
  refine raises_bind r.spaceBytes_hasNoResult fun _ => ?_
  refine raises_bind (Framing.append_hasNoResult _) fun _ => ?_
  refine raises_bind raises_get fun before => ?_
  refine raises_bind (Framing.write_hasNoResult _) fun _ => ?_
  refine raises_bind raises_get fun written => ?_
  dsimp only
  split
  · exact raises_bind (raises_modify _) fun _ => raises_throw rfl
  · exact raises_pure _

theorem encode_hasNoResult (r : RequestMessage) (registry : Registry) :
    Raises HasNoResult (r.encode registry) :=
  Framing.message_hasNoResult _ _ (r.writeBody_hasNoResult registry)

-- What is written of a request carries its number.
theorem encode_carries_id {r : RequestMessage} {registry : Registry} {bytes : ByteArray}
    (h : r.encode registry ByteArray.empty = .ok () bytes) :
    MessageHeader.wordAt bytes 4 = r.id := by
  obtain ⟨length, rest, rfl⟩ :=
    Framing.message_header (fun _ => r.writeBody_keeps registry) h
  exact MessageHeader.wordAt_second length r.id rest

end RequestMessage

end DocWire

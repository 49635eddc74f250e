import DocWire.Proofs.Message.Framing
import DocWire.Proofs.Wire.Reads
import DocWire.Proofs.Wire.RoundTrip

namespace DocWire

open Outcome Reader Wire

-- A query as its bytes tell it.
structure Query where
  header : MessageHeader
  flags : Int32
  space : String
  skipped : Int32
  returned : Int32
  command : Document

namespace Query

-- What follows the header of a command.
def body (space : String) (text : ByteArray) : ByteArray :=
  Word.int32 0 ++ (terminated space ++ (Word.int32 0 ++ Word.int32 (-1) ++ text))

-- The size of a command whose document takes up `count` bytes.
def size (space : String) (count : Nat) : Nat :=
  16 + 4 + space.toUTF8.size + 1 + 8 + count

theorem size_body (space : String) (text : ByteArray) :
    MessageHeader.size + (body space text).size = size space text.size := by
  simp only [body, size, MessageHeader.size, ByteArray.size_append, Word.size_int32,
    size_terminated]
  omega

def readHeader : Reader.Action MessageHeader := do
  return ⟨← Reader.int32, ← Reader.int32, ← Reader.int32, ← Reader.int32⟩

-- Takes a query apart: the name of the addressee ends with the first zero byte.
def read : Reader.Action Query := do
  let header ← readHeader
  let flags ← Reader.int32
  let space ← Reader.name
  let skipped ← Reader.int32
  let returned ← Reader.int32
  let command ← Registry.standard.decodeDocument
  return ⟨header, flags, space, skipped, returned, command⟩

theorem header_reads (header : MessageHeader) : Reads readHeader header.toBytes header := by
  obtain ⟨length, id, response, code⟩ := header
  simp only [MessageHeader.toBytes, ByteArray.append_assoc]
  apply (int32_reads length).bind
  apply (int32_reads id).bind
  apply (int32_reads response).bind
  exact (int32_reads code).map (MessageHeader.mk length id response)

-- A query is taken apart into what it was put together from.
theorem query_reads (header : MessageHeader) {space : String} {text : ByteArray} {d : Document}
    (hclean : Writer.hasZeroByte space = false) (htext : IsDocument text d) :
    Reads read (header.toBytes ++ body space text) ⟨header, 0, space, 0, -1, d⟩ := by
  rw [body, ByteArray.append_assoc (a := Word.int32 0)]
  apply (header_reads header).bind
  apply (int32_reads 0).bind
  apply (name_reads hclean).bind
  apply (int32_reads 0).bind
  apply (int32_reads (-1)).bind
  exact (document_reads htext).map (Query.mk header 0 space 0 (-1))

end Query

-- The bytes of a command that can be sent: it has an addressee, can be written, and is neither too
-- large a document nor too large a message.
structure Sendable (space : String) (d : Document) (settings : MessageSettings)
    (text : ByteArray) : Prop where
  clean : Char.ofNat 0 ∉ space.toList
  written : Registry.standard.toBytes d = .ok text
  document : text.size ≤ settings.maxDocumentSize
  message : Query.size space text.size ≤ settings.maxMessageSize
  word : Query.size space text.size ≤ Word.maxLength

-- The first thing that keeps a command from being sent.
inductive FirstFault (space : String) (d : Document) (settings : MessageSettings) :
    CommandError → Prop where
  | space (h : Char.ofNat 0 ∈ space.toList) :
      FirstFault space d settings (.invalidNamespace space)
  | codec {e : CodecError} (hclean : Char.ofNat 0 ∉ space.toList)
      (h : Registry.standard.toBytes d = .error e) : FirstFault space d settings (.codec e)
  | document {text : ByteArray} (hclean : Char.ofNat 0 ∉ space.toList)
      (hwritten : Registry.standard.toBytes d = .ok text)
      (h : settings.maxDocumentSize < text.size) :
      FirstFault space d settings (.oversizedDocument text.size settings.maxDocumentSize)
  | message {text : ByteArray} (hclean : Char.ofNat 0 ∉ space.toList)
      (hwritten : Registry.standard.toBytes d = .ok text)
      (hdocument : text.size ≤ settings.maxDocumentSize)
      (h : settings.maxMessageSize < Query.size space text.size ∨
        Word.maxLength < Query.size space text.size) :
      FirstFault space d settings
        (.oversizedMessage (Query.size space text.size) settings.maxMessageSize)

theorem sendable_or_fault (space : String) (d : Document) (settings : MessageSettings) :
    (∃ text, Sendable space d settings text) ∨ ∃ e, FirstFault space d settings e := by
  by_cases hclean : Char.ofNat 0 ∈ space.toList
  · exact .inr ⟨_, .space hclean⟩
  · cases hwritten : Registry.standard.toBytes d with
    | error e => exact .inr ⟨_, .codec hclean hwritten⟩
    | ok text =>
        by_cases hdocument : text.size ≤ settings.maxDocumentSize
        · by_cases hmessage : Query.size space text.size ≤ settings.maxMessageSize ∧
              Query.size space text.size ≤ Word.maxLength
          · exact .inl ⟨text, hclean, hwritten, hdocument, hmessage.1, hmessage.2⟩
          · exact .inr ⟨_, .message hclean hwritten hdocument (by omega)⟩
        · exact .inr ⟨_, .document hclean hwritten (by omega)⟩

namespace RequestMessage

open Framing

variable {r : RequestMessage}

theorem spaceBytes_adds (h : Char.ofNat 0 ∉ r.space.toList) :
    Adds r.spaceBytes (terminated r.space) := by
  rw [← Writer.hasZeroByte_iff] at h
  unfold spaceBytes
  rw [if_neg h]
  exact append_adds _

theorem spaceBytes_fails (h : Char.ofNat 0 ∈ r.space.toList) :
    Fails r.spaceBytes (.invalidNamespace r.space) := by
  rw [← Writer.hasZeroByte_iff] at h
  unfold spaceBytes
  rw [if_pos h]
  exact fun buffer => ⟨buffer, rfl⟩

theorem writeBody_eq (r : RequestMessage) (registry : Registry) :
    r.writeBody registry = (do
      append (Word.int32 0)
      r.spaceBytes
      append (Word.int32 0 ++ Word.int32 (-1))
      limited r.settings.maxDocumentSize (write (r.writeDocument registry))) :=
  rfl

theorem writeBody_fails {registry : Registry} {e : CommandError}
    (hclean : Char.ofNat 0 ∉ r.space.toList)
    (h : Fails (limited r.settings.maxDocumentSize (write (r.writeDocument registry))) e) :
    Fails (r.writeBody registry) e := by
  rw [writeBody_eq]
  exact (append_adds _).bind_fails <| (spaceBytes_adds hclean).bind_fails <|
    (append_adds _).bind_fails h

theorem encode_fails {registry : Registry} {e : CommandError} (h : Fails (r.writeBody registry) e)
    (prior : ByteArray) : r.encode registry prior = .error e prior :=
  message_fails _ _ (fun _ => r.writeBody_keeps registry) h prior

section

-- A request whose document is written as the registry writes `d`.
variable {d : Document}
  (hd : r.writeDocument Registry.standard = Registry.standard.encodeDocument d)

include hd

theorem writeBody_adds {text : ByteArray} (hclean : Char.ofNat 0 ∉ r.space.toList)
    (hwritten : Registry.standard.toBytes d = .ok text)
    (hdocument : text.size ≤ r.settings.maxDocumentSize) :
    Adds (r.writeBody Registry.standard) (Query.body r.space text) := by
  rw [writeBody_eq, hd]
  exact (append_adds _).bind <| (spaceBytes_adds hclean).bind <| (append_adds _).bind <|
    limited_adds (encodeDocument_adds hwritten) hdocument

-- A request that can be sent is put behind whatever the buffer holds, and begins with its length.
theorem encode_ok {text : ByteArray} (h : Sendable r.space d r.settings text) (prior : ByteArray) :
    r.encode Registry.standard prior =
      .ok () (prior ++
        ((MessageHeader.mk (Int32.ofNat (Query.size r.space text.size)) r.id 0
          OpCode.query.code).toBytes ++ Query.body r.space text)) := by
  have hbody := writeBody_adds hd h.clean h.written h.document
  have hmessage := h.message
  have hword := h.word
  rw [encode, message_run _ _ (hbody _), Query.size_body, if_neg (by omega)]
  rfl

-- One that cannot is refused for the first thing that is wrong with it.
theorem encode_error {e : CommandError} (h : FirstFault r.space d r.settings e)
    (prior : ByteArray) : r.encode Registry.standard prior = .error e prior := by
  cases h with
  | space h =>
      apply encode_fails
      rw [writeBody_eq]
      exact (append_adds _).bind_fails ((spaceBytes_fails h).bind _)
  | codec hclean h =>
      apply encode_fails
      apply writeBody_fails hclean
      rw [hd]
      exact limited_fails (encodeDocument_fails h) _
  | document hclean hwritten h =>
      apply encode_fails
      apply writeBody_fails hclean
      rw [hd]
      exact limited_oversized (encodeDocument_adds hwritten) h
  | message hclean hwritten hdocument h =>
      have hbody := writeBody_adds hd hclean hwritten hdocument
      rw [encode, message_run _ _ (hbody _), Query.size_body, if_pos h]

-- Each request either can be sent or has a first fault, and so nothing else comes of it.
theorem encode_eq_ok {prior after : ByteArray} :
    r.encode Registry.standard prior = .ok () after ↔
      ∃ text, Sendable r.space d r.settings text ∧ after = prior ++
        ((MessageHeader.mk (Int32.ofNat (Query.size r.space text.size)) r.id 0
          OpCode.query.code).toBytes ++ Query.body r.space text) := by
  constructor
  · intro h
    rcases sendable_or_fault r.space d r.settings with ⟨text, htext⟩ | ⟨e, he⟩
    · rw [encode_ok hd htext] at h
      cases h
      exact ⟨text, htext, rfl⟩
    · rw [encode_error hd he] at h
      cases h
  · rintro ⟨text, htext, rfl⟩
    exact encode_ok hd htext prior

theorem encode_eq_error {prior after : ByteArray} {e : CommandError} :
    r.encode Registry.standard prior = .error e after ↔
      FirstFault r.space d r.settings e ∧ after = prior := by
  constructor
  · intro h
    rcases sendable_or_fault r.space d r.settings with ⟨text, htext⟩ | ⟨fault, hfault⟩
    · rw [encode_ok hd htext] at h
      cases h
    · rw [encode_error hd hfault] at h
      cases h
      exact ⟨hfault, rfl⟩
  · rintro ⟨hfault, rfl⟩
    exact encode_error hd hfault _

end

-- A command is sent just when nothing is wrong with it, and else is refused for the first thing
-- that is. What is sent stands behind whatever the buffer held, tells its own size, and is taken
-- apart, wherever it stands, into the addressee and the command.
theorem encode_exact (id : Int32) (database : String) (command : Document)
    (settings : MessageSettings) (prior : ByteArray) (hcommand : command.WellFormed) :
    let r := ofCommand id database command settings none
    let space := database ++ ".$cmd"
    ((∃ after, r.encode .standard prior = .ok () after) ↔
        Char.ofNat 0 ∉ space.toList ∧ ∃ text, Registry.standard.toBytes command = .ok text ∧
          text.size ≤ settings.maxDocumentSize ∧
          Query.size space text.size ≤ settings.maxMessageSize ∧
          Query.size space text.size ≤ Word.maxLength) ∧
      (∀ e after, r.encode .standard prior = .error e after ↔
        FirstFault space command settings e ∧ after = prior) ∧
      ∀ after, r.encode .standard prior = .ok () after →
        ∃ (text : ByteArray) (length : Int32), Registry.standard.toBytes command = .ok text ∧
          length.toInt = Query.size space text.size ∧
          (after.size : Int) = (prior.size : Int) + length.toInt ∧
          after = prior ++
            (Word.int32 length ++ Word.int32 id ++ Word.int32 0 ++ Word.int32 2004 ++
              (Word.int32 0 ++ (space.toUTF8 ++ [0].toByteArray ++
                (Word.int32 0 ++ Word.int32 (-1) ++ text)))) ∧
          ∀ rest, ∃ s, Query.read ((Reader.ofBytes (after ++ rest)).skip prior.size) =
            .ok ⟨⟨length, id, 0, 2004⟩, 0, space, 0, -1, command⟩ s ∧ s.position = after.size := by
  have hd : (ofCommand id database command settings none).writeDocument Registry.standard =
      Registry.standard.encodeDocument command := rfl
  refine ⟨⟨?_, ?_⟩, fun e after => encode_eq_error hd, ?_⟩
  · rintro ⟨after, h⟩
    obtain ⟨text, htext, _⟩ := (encode_eq_ok hd).mp h
    exact ⟨htext.clean, text, htext.written, htext.document, htext.message, htext.word⟩
  · rintro ⟨hclean, text, hwritten, hdocument, hmessage, hword⟩
    exact ⟨_, encode_ok hd ⟨hclean, hwritten, hdocument, hmessage, hword⟩ prior⟩
  · intro after h
    obtain ⟨text, htext, rfl⟩ := (encode_eq_ok hd).mp h
    have hclean := Writer.hasZeroByte_false_iff.mpr htext.clean
    have hlength := Word.toInt_ofNat htext.word
    refine ⟨text, _, htext.written, hlength, ?_, rfl, fun rest => ?_⟩
    · rw [hlength, ByteArray.size_append, ByteArray.size_append, MessageHeader.size_toBytes,
        Query.size_body, Int.natCast_add]
    · have hdocument := isDocument_of_toBytes hcommand htext.written
      exact (Query.query_reads _ hclean hdocument).found prior rest

-- A command behind what the buffer held already.
theorem ping_exact :
    ∃ after s, (ofCommand 7 "admin" ⟨[("ping", .int32 1)]⟩ .standard none).encode .standard
        [1, 2, 3].toByteArray = .ok () after ∧ after.size = 57 ∧
      Query.read ((Reader.ofBytes (after ++ [9].toByteArray)).skip 3) =
        .ok ⟨⟨54, 7, 0, 2004⟩, 0, "admin.$cmd", 0, -1, ⟨[("ping", .int32 1)]⟩⟩ s := by
  have hping : Document.WellFormed ⟨[("ping", .int32 1)]⟩ := by
    simp [Document.WellFormed, Document.Throughout, fieldsThroughout, Value.Throughout,
      Document.Distinct, Document.keys]
  have hnamed : Document.Throughout Document.Named ⟨[("ping", .int32 1)]⟩ := by
    simp [Document.Throughout, fieldsThroughout, Value.Throughout, Document.Named, Document.keys]
  have hbytes := toBytes_eq_ok.mpr
    ⟨(Document.writable_iff _ 0 (Nat.zero_le _)).mpr ⟨hnamed, by decide, by decide⟩, rfl⟩
  obtain ⟨hsucceeds, _, hsent⟩ :=
    encode_exact 7 "admin" ⟨[("ping", .int32 1)]⟩ .standard [1, 2, 3].toByteArray hping
  obtain ⟨after, hafter⟩ := hsucceeds.mpr
    ⟨by decide, _, hbytes, by decide, by decide, by decide⟩
  obtain ⟨text, length, hwritten, hlength, hsize, _, hread⟩ := hsent after hafter
  rw [hbytes] at hwritten
  cases hwritten
  have hword : length = 54 := Int32.toInt_inj.mp hlength
  subst hword
  obtain ⟨s, hread, _⟩ := hread [9].toByteArray
  exact ⟨after, s, hafter, Int.ofNat_inj.mp hsize, hread⟩

end RequestMessage

end DocWire

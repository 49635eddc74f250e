import DocWire.Proofs.Message.Framing
import DocWire.Proofs.Message.Tiling
import DocWire.Proofs.Wire.RoundTrip

namespace DocWire

open Wire

-- What stands behind some bytes stands nearer to the beginning without them.
theorem extract_behind {front : ByteArray} {start : Nat} (h : front.size ≤ start)
    (rest : ByteArray) (stop : Nat) :
    (front ++ rest).extract start stop = rest.extract (start - front.size) (stop - front.size) := by
  have hfront : front.extract start stop = ByteArray.empty :=
    ByteArray.extract_eq_empty_iff.mpr (by omega)
  rw [ByteArray.extract_append, hfront, ByteArray.empty_append]

namespace ReplyMessage

open Framing

-- Documents as they are written, one after the other.
def written : List Document → ByteArray
  | [] => ByteArray.empty
  | d :: rest => d.rendered ++ written rest

-- The size of a reply on its way.
def size (r : ReplyMessage) : Nat :=
  36 + (written r.documents).size

-- The reply as it arrives, which differs only in that its header tells the size.
def arrived (r : ReplyMessage) : ReplyMessage :=
  { r with header := { r.header with length := Int32.ofNat r.size } }

-- The bytes that stand for a reply.
def rendered (r : ReplyMessage) : ByteArray :=
  r.arrived.header.toBytes ++
    (r.fieldBytes (Int32.ofNat r.documents.length) ++ written r.documents)

@[simp] theorem size_fieldBytes (r : ReplyMessage) (count : Int32) :
    (r.fieldBytes count).size = fieldsSize := by
  simp only [fieldBytes, ByteArray.size_append, Word.size_int32, Word.size_int64]
  rfl

theorem size_body (r : ReplyMessage) (count : Int32) :
    MessageHeader.size + (r.fieldBytes count ++ written r.documents).size = r.size := by
  simp only [ByteArray.size_append, size_fieldBytes, MessageHeader.size, fieldsSize, size]
  omega

@[simp] theorem size_rendered (r : ReplyMessage) : r.rendered.size = r.size := by
  rw [rendered, ByteArray.size_append, MessageHeader.size_toBytes, size_body]

theorem size_le_written {documents : List Document} :
    ∀ d ∈ documents, d.rendered.size ≤ (written documents).size := by
  induction documents with
  | nil => simp
  | cons d rest ih =>
      simp only [List.forall_mem_cons, written, ByteArray.size_append]
      refine ⟨by omega, fun other hother => ?_⟩
      have := ih other hother
      omega

-- No document is so short that they could be too many to count and yet fit.
theorem length_le_written (documents : List Document) :
    documents.length ≤ (written documents).size := by
  induction documents with
  | nil => simp
  | cons d rest ih =>
      obtain ⟨fields⟩ := d
      simp only [written, Document.rendered, ByteArray.size_append, size_enclosed, List.length_cons]
      omega

theorem writeDocuments_adds {documents : List Document} (h : ∀ d ∈ documents, d.Writable 0) :
    Adds (writeDocuments Registry.standard.encodeDocument documents) (written documents) := by
  induction documents with
  | nil =>
      intro buffer
      rw [written, ByteArray.append_empty]
      rfl
  | cons d rest ih =>
      obtain ⟨hd, hrest⟩ := List.forall_mem_cons.mp h
      exact (encodeDocument_adds (toBytes_eq_ok.mpr ⟨hd, rfl⟩)).bind (ih hrest)

-- The first document that cannot be written ends it all.
theorem writeDocuments_fails {documents : List Document} (h : ¬ ∀ d ∈ documents, d.Writable 0) :
    ∃ e, Fails (writeDocuments Registry.standard.encodeDocument documents) e := by
  induction documents with
  | nil => exact absurd (by simp) h
  | cons d rest ih =>
      cases hd : Registry.standard.toBytes d with
      | error fault => exact ⟨.codec fault, (encodeDocument_fails hd).bind _⟩
      | ok text =>
          have hwritable := (toBytes_eq_ok.mp hd).1
          have hrest : ¬ ∀ d ∈ rest, d.Writable 0 :=
            fun hrest => h (List.forall_mem_cons.mpr ⟨hwritable, hrest⟩)
          obtain ⟨e, he⟩ := ih hrest
          exact ⟨e, (encodeDocument_adds hd).bind_fails he⟩

section

variable {r : ReplyMessage} {prior after : ByteArray}

theorem encode_run (hcount : r.documents.length ≤ Word.maxLength) (prior : ByteArray) :
    r.encode Registry.standard.encodeDocument prior =
      message r.header Word.maxLength (do
        append (r.fieldBytes (Int32.ofNat r.documents.length))
        writeDocuments Registry.standard.encodeDocument r.documents) prior := by
  rw [encode, if_neg (Nat.not_lt.mpr hcount)]

-- A reply can be encoded just when its documents can be written and its length fits its word, and
-- is then put behind whatever the buffer holds.
theorem encode_eq_ok :
    r.encode Registry.standard.encodeDocument prior = .ok () after ↔
      (∀ d ∈ r.documents, d.Writable 0) ∧ r.size ≤ Word.maxLength ∧
        after = prior ++ r.rendered := by
  by_cases hcount : r.documents.length ≤ Word.maxLength
  · rw [encode_run hcount]
    by_cases hwritable : ∀ d ∈ r.documents, d.Writable 0
    · have hbody := (append_adds (r.fieldBytes (Int32.ofNat r.documents.length))).bind
        (writeDocuments_adds hwritable)
      rw [message_run _ _ (hbody _), size_body, and_iff_right hwritable]
      by_cases hsize : r.size ≤ Word.maxLength
      · rw [if_neg (by omega), and_iff_right hsize, EStateM.Result.ok.injEq, and_iff_right rfl]
        exact eq_comm
      · rw [if_pos (by omega)]
        simp [hsize]
    · obtain ⟨e, he⟩ := writeDocuments_fails hwritable
      have hfails := (append_adds (r.fieldBytes (Int32.ofNat r.documents.length))).bind_fails he
      rw [message_fails _ _ (fun prior => ?_) hfails]
      · simp [hwritable]
      · exact Outcome.preserves_bind (append_keeps _) fun _ => writeDocuments_keeps _ _
  · have hlong := length_le_written r.documents
    have hsize : ¬ r.size ≤ Word.maxLength := by
      unfold size
      omega
    rw [encode, if_pos (Nat.not_le.mp hcount)]
    exact ⟨fun h => absurd h Outcome.throw_ne_ok, fun h => absurd h.2.1 hsize⟩

end

-- Documents that are written in a row can be told apart again.
theorem tiles_written {documents : List Document} (hformed : ∀ d ∈ documents, d.WellFormed)
    (hwritable : ∀ d ∈ documents, d.Writable 0) : Tiles (written documents) documents := by
  induction documents with
  | nil => exact .nil
  | cons d rest ih =>
      obtain ⟨hd, hrest⟩ := List.forall_mem_cons.mp hformed
      obtain ⟨hd', hrest'⟩ := List.forall_mem_cons.mp hwritable
      exact .cons (isDocument_of_toBytes hd (toBytes_eq_ok.mpr ⟨hd', rfl⟩)) (ih hrest hrest')

section

variable (r : ReplyMessage)

theorem rendered_eq :
    r.rendered = Word.int32 (Int32.ofNat r.size) ++ (Word.int32 r.header.requestId ++
      (Word.int32 r.header.responseTo ++ (Word.int32 r.header.opCode ++ (Word.int32 r.flags ++
        (Word.int64 r.cursorId ++ (Word.int32 r.startingFrom ++
          (Word.int32 (Int32.ofNat r.documents.length) ++ written r.documents))))))) := by
  simp only [rendered, arrived, MessageHeader.toBytes, fieldBytes, ByteArray.append_assoc]

-- The header of a reply, word by word.
theorem header_rendered :
    MessageHeader.wordAt r.rendered 0 = Int32.ofNat r.size ∧
      MessageHeader.wordAt r.rendered 4 = r.header.requestId ∧
      MessageHeader.wordAt r.rendered 8 = r.header.responseTo ∧
      MessageHeader.wordAt r.rendered 12 = r.header.opCode := by
  simp [rendered_eq, MessageHeader.wordAt, extract_behind, ByteArray.extract_append_eq_left]

-- What follows the header.
theorem body_rendered :
    MessageHeader.wordAt r.rendered 16 = r.flags ∧
      Word.toInt64 (r.rendered.extract 20 28) = r.cursorId ∧
      MessageHeader.wordAt r.rendered 28 = r.startingFrom ∧
      MessageHeader.wordAt r.rendered 32 = Int32.ofNat r.documents.length ∧
      r.rendered.extract 36 r.rendered.size = written r.documents := by
  simp [rendered_eq, MessageHeader.wordAt, extract_behind, ByteArray.extract_append_eq_left]

variable {r}

-- The bytes of a reply carry it to whoever waits for it.
theorem rendered_carries {limit : Nat} (hcode : r.header.opCode = 1)
    (hformed : ∀ d ∈ r.documents, d.WellFormed) (hwritable : ∀ d ∈ r.documents, d.Writable 0)
    (hword : r.size ≤ Word.maxLength) (hlimit : r.size ≤ limit) :
    Carries ⟨r.header.responseTo, limit⟩ r.rendered r.arrived := by
  obtain ⟨hlength, hid, hresponse, hop⟩ := r.header_rendered
  obtain ⟨hflags, hcursor, hstart, hcount, htext⟩ := r.body_rendered
  have hdocuments := length_le_written r.documents
  have hfits : r.documents.length ≤ Word.maxLength := by
    unfold size at hword
    omega
  refine ⟨?_, ?_, ?_, ?_, hresponse, ?_, ?_, ?_, hflags.symm, hcursor.symm, hstart.symm⟩
  · rw [size_rendered]
    exact Nat.le_add_right 36 _
  · rw [size_rendered]
    exact hlimit
  · rw [hlength, size_rendered, Word.toInt_ofNat hword]
  · rw [hop, hcode]
  · rw [htext]
    exact tiles_written hformed hwritable
  · rw [hcount, Word.toInt_ofNat hfits]
    rfl
  · rw [hlength, hid, hresponse, hop]
    rfl

-- Anybody else learns whose reply it is.
theorem decode_mismatch {settings : ReplySettings} (hcode : r.header.opCode = 1)
    (hword : r.size ≤ Word.maxLength) (hlimit : r.size ≤ settings.maxMessageSize)
    (hother : settings.responseTo ≠ r.header.responseTo) (decoder : Decoder Document) :
    decode decoder settings r.rendered =
      .error (.responseMismatch settings.responseTo r.header.responseTo) := by
  obtain ⟨hlength, hid, hresponse, hop⟩ := r.header_rendered
  have hlong : MessageHeader.size ≤ r.rendered.size := by
    rw [size_rendered, size, MessageHeader.size]
    omega
  have hpeek := peek_eq_ok.mpr ⟨hlong, rfl⟩
  have hcheck : checkHeader r.rendered settings ⟨MessageHeader.wordAt r.rendered 0,
      MessageHeader.wordAt r.rendered 4, MessageHeader.wordAt r.rendered 8,
      MessageHeader.wordAt r.rendered 12⟩ =
        .error (.responseMismatch settings.responseTo r.header.responseTo) := by
    have hreply : OpCode.ofCode? 1 = some .reply := rfl
    unfold checkHeader
    rw [hlength, hresponse, hop, hcode, size_rendered, if_neg (Nat.not_lt.mpr hlimit),
      if_neg (not_not_intro (Word.toInt_ofNat hword)), if_neg (not_not_intro hreply),
      if_pos hother.symm]
  rw [decode, hpeek]
  exact Outcome.except_bind_eq_error.mpr (.inr ⟨_, rfl, Outcome.except_bind_eq_error.mpr
    (.inl hcheck)⟩)

end

-- A reply whose documents can be written and fit is put behind whatever the buffer holds. Whoever
-- asked for it reads the same reply, with the size that it now has, or its first document as the
-- error if it says that the query failed. To anybody else it is the reply to another request.
theorem encode_returns (r : ReplyMessage) (prior : ByteArray)
    (hcode : r.header.opCode = OpCode.reply.code) (hformed : ∀ d ∈ r.documents, d.WellFormed) :
    ((∃ after, r.encode Registry.standard.encodeDocument prior = .ok () after) ↔
        (∀ d ∈ r.documents, d.Throughout Document.Named ∧ d.depth ≤ maxNesting) ∧
          36 + (written r.documents).size ≤ Word.maxLength) ∧
      ∀ after, r.encode Registry.standard.encodeDocument prior = .ok () after →
        ∃ (bytes : ByteArray) (length : Int32), after = prior ++ bytes ∧
          length.toInt = bytes.size ∧ bytes.size = 36 + (written r.documents).size ∧
          ∀ settings : ReplySettings, bytes.size ≤ settings.maxMessageSize →
            (settings.responseTo = r.header.responseTo → r.flags &&& 2 = 0 →
              decode Registry.standard.decodeDocument settings bytes =
                .ok { r with header := { r.header with length := length } }) ∧
            (settings.responseTo = r.header.responseTo → r.flags &&& 2 ≠ 0 →
              decode Registry.standard.decodeDocument settings bytes =
                .error (.queryFailure (r.documents.head?.getD .empty))) ∧
            (settings.responseTo ≠ r.header.responseTo →
              decode Registry.standard.decodeDocument settings bytes =
                .error (.responseMismatch settings.responseTo r.header.responseTo)) := by
  have hwritable : ∀ d : Document, d.Writable 0 ↔ d.Throughout Document.Named ∧
      d.depth ≤ maxNesting ∧ d.rendered.size ≤ Word.maxLength :=
    fun d => d.writable_iff 0 (Nat.zero_le _)
  refine ⟨⟨?_, ?_⟩, fun after h => ?_⟩
  · rintro ⟨after, h⟩
    obtain ⟨hdocuments, hsize, _⟩ := encode_eq_ok.mp h
    refine ⟨fun d hd => ?_, hsize⟩
    obtain ⟨hnamed, hdepth, _⟩ := (hwritable d).mp (hdocuments d hd)
    exact ⟨hnamed, hdepth⟩
  · rintro ⟨hdocuments, hsize⟩
    refine ⟨_, encode_eq_ok.mpr ⟨fun d hd => ?_, hsize, rfl⟩⟩
    obtain ⟨hnamed, hdepth⟩ := hdocuments d hd
    have hshort := size_le_written d hd
    exact (hwritable d).mpr ⟨hnamed, hdepth, by omega⟩
  · obtain ⟨hdocuments, hsize, rfl⟩ := encode_eq_ok.mp h
    refine ⟨r.rendered, Int32.ofNat r.size, rfl, ?_, size_rendered r, fun settings hlimit => ?_⟩
    · rw [Word.toInt_ofNat hsize, size_rendered]
    rw [size_rendered] at hlimit
    have hread : settings.responseTo = r.header.responseTo →
        readWhole Registry.standard.decodeDocument settings r.rendered = .ok r.arrived := by
      intro hresponse
      have hcarries := rendered_carries hcode hformed hdocuments hsize hlimit
      rw [← hresponse] at hcarries
      exact readWhole_carries.mpr hcarries
    have hflag : r.arrived.queryFailed = true ↔ r.flags &&& 2 ≠ 0 := decide_eq_true_iff
    refine ⟨fun hresponse hclear => ?_, fun hresponse hset => ?_, fun hother => ?_⟩
    · have hfine : r.arrived.queryFailed = false :=
        Bool.eq_false_iff.mpr fun hfailed => hflag.mp hfailed hclear
      exact decode_eq_ok.mpr ⟨hread hresponse, hfine⟩
    · exact decode_eq_error.mpr (.inr ⟨r.arrived, hread hresponse, hflag.mpr hset, rfl⟩)
    · exact decode_mismatch hcode hsize hlimit hother _

-- Two documents behind what the buffer held already, for a request with a number below zero.
theorem batch_returns :
    let batch : ReplyMessage := ⟨⟨0, 5, -7, 1⟩, 8, -2, 3, [⟨[("a", .null)]⟩, .empty]⟩
    batch.header.opCode = OpCode.reply.code ∧ (∀ d ∈ batch.documents, d.WellFormed) ∧
      ∃ bytes, batch.encode Registry.standard.encodeDocument [1, 2].toByteArray =
          .ok () ([1, 2].toByteArray ++ bytes) ∧
        decode Registry.standard.decodeDocument ⟨-7, 49⟩ bytes =
          .ok { batch with header := ⟨49, 5, -7, 1⟩ } := by
  intro batch
  have hformed : ∀ d ∈ batch.documents, d.WellFormed := by
    simp [batch, Document.WellFormed, Document.Throughout, fieldsThroughout, Value.Throughout,
      Document.Distinct, Document.keys, Document.empty]
  have hnamed : ∀ d ∈ batch.documents, d.Throughout Document.Named ∧ d.depth ≤ maxNesting := by
    simp [batch, Document.Throughout, fieldsThroughout, Value.Throughout, Document.Named,
      Document.keys, Document.empty, Document.depth, fieldsDepth, Value.depth, maxNesting]
  obtain ⟨hsucceeds, hreturns⟩ := encode_returns batch [1, 2].toByteArray rfl hformed
  obtain ⟨after, hafter⟩ := hsucceeds.mpr ⟨hnamed, by decide⟩
  obtain ⟨bytes, length, rfl, hlength, hsize, hread⟩ := hreturns after hafter
  have hcount : bytes.size = 49 := hsize.trans (by decide)
  rw [hcount] at hlength
  have hword : length = 49 := Int32.toInt_inj.mp hlength
  subst hword
  have hclear : batch.flags &&& 2 = 0 := by decide
  exact ⟨rfl, hformed, bytes, hafter, (hread ⟨-7, 49⟩ (Nat.le_of_eq hcount)).1 rfl hclear⟩

end ReplyMessage

end DocWire

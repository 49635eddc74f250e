import DocWire.Proofs.Message.Answer
import DocWire.Proofs.Wire.Acceptance

namespace DocWire

open Wire

-- Documents one after the other, with nothing before, between or behind them.
inductive Wire.Tiles : ByteArray → List Document → Prop where
  | nil : Tiles ByteArray.empty []
  | cons {text rest : ByteArray} {d : Document} {documents : List Document}
      (hfirst : IsDocument text d) (hrest : Tiles rest documents) :
      Tiles (text ++ rest) (d :: documents)

theorem Wire.IsDocument.five_le {text : ByteArray} {d : Document} (h : IsDocument text d) :
    5 ≤ text.size := by
  unfold IsDocument at h
  cases h with
  | document size hsize hbody =>
      rw [size_framed]
      exact Nat.le_add_left 5 _

theorem MessageHeader.wordAt_first (first : Int32) (rest : ByteArray) :
    wordAt (Word.int32 first ++ rest) 0 = first := by
  have hfirst : (Word.int32 first ++ rest).extract 0 (0 + 4) = Word.int32 first :=
    ByteArray.extract_append_eq_left (Word.size_int32 first).symm
  rw [wordAt, hfirst, Word.toInt32_int32]

namespace ReplyMessage

-- The size that a document declares is its own.
theorem documentSize_document {text : ByteArray} {d : Document} (h : IsDocument text d)
    (rest : ByteArray) : documentSize (text ++ rest) = .ok text.size := by
  have hlong := h.five_le
  obtain ⟨size, tail, heq, hsize⟩ := h.size
  have hword : MessageHeader.wordAt (text ++ rest) 0 = size := by
    rw [heq, ByteArray.append_assoc, MessageHeader.wordAt_first]
  have hcount : size.toInt.toNat = text.size := by omega
  unfold documentSize
  rw [ByteArray.size_append, if_neg (by omega), hword]
  dsimp only
  rw [hcount, if_pos ⟨hlong, Nat.le_add_right _ _⟩]

-- A document is read from exactly its own bytes.
theorem readDocument_document {text : ByteArray} {d : Document} (h : IsDocument text d) :
    readDocument Registry.standard.decodeDocument text = .ok d := by
  obtain ⟨r, hread, _⟩ := document_read h ByteArray.empty
  rw [ByteArray.append_empty] at hread
  rw [readDocument, hread]

-- What is read of the bytes that a document declares for itself takes up all of them.
theorem isDocument_of_readDocument {bytes : ByteArray} {size : Nat} {d : Document}
    (hsize : documentSize bytes = .ok size)
    (h : readDocument Registry.standard.decodeDocument (bytes.extract 0 size) = .ok d) :
    IsDocument (bytes.extract 0 size) d := by
  obtain ⟨_, hle⟩ := documentSize_bounds hsize
  unfold readDocument at h
  split at h
  · next found r hread =>
    cases h
    obtain ⟨text, rest, hextract, hdocument, _⟩ := document_read_sound hread
    have hbytes := extract_append_rest hle
    rw [hextract, ByteArray.append_assoc] at hbytes
    rw [← hbytes, documentSize_document hdocument] at hsize
    cases hsize
    have hrest : rest.size = 0 := by
      have hcount := congrArg ByteArray.size hextract
      rw [ByteArray.size_append, ByteArray.size_extract] at hcount
      omega
    rw [hextract, ByteArray.size_eq_zero_iff.mp hrest, ByteArray.append_empty]
    exact hdocument
  · cases h

-- Documents are read just from what they tile.
theorem readDocuments_eq_ok {bytes : ByteArray} {documents : List Document} :
    readDocuments Registry.standard.decodeDocument bytes = .ok documents ↔
      Tiles bytes documents := by
  constructor
  · intro h
    fun_induction readDocuments Registry.standard.decodeDocument bytes generalizing documents
    case case1 bytes hempty =>
      cases h
      rw [ByteArray.size_eq_zero_iff.mp hempty]
      exact .nil
    case case2 bytes hsome fault hsize => cases h
    case case3 bytes hsome size hsize fault hread => cases h
    case case4 bytes hsome size hsize d hread fault hrest ih => cases h
    case case5 bytes hsome size hsize d hread rest hrest ih =>
      cases h
      rw [← extract_append_rest (documentSize_bounds hsize).2]
      exact .cons (isDocument_of_readDocument hsize hread) (ih hrest)
  · intro h
    induction h with
    | nil =>
        rw [readDocuments, if_pos ByteArray.size_empty]
    | @cons text rest d documents hfirst hrest ih =>
        have hlong := hfirst.five_le
        have hfront : (text ++ rest).extract 0 text.size = text :=
          ByteArray.extract_append_eq_left rfl
        have hback : (text ++ rest).extract text.size (text ++ rest).size = rest :=
          ByteArray.extract_append_eq_right rfl ByteArray.size_append
        rw [readDocuments, if_neg (by rw [ByteArray.size_append]; omega)]
        split
        · next fault hsize =>
          rw [documentSize_document hfirst] at hsize
          cases hsize
        · next size hsize =>
          rw [documentSize_document hfirst] at hsize
          cases hsize
          simp only [hfront, hback, readDocument_document hfirst, ih]

-- The bytes of a reply to the request in question, of a size that is allowed, with what they say.
structure Carries (settings : ReplySettings) (bytes : ByteArray) (reply : ReplyMessage) : Prop where
  long : 36 ≤ bytes.size
  allowed : bytes.size ≤ settings.maxMessageSize
  declared : (MessageHeader.wordAt bytes 0).toInt = bytes.size
  isReply : MessageHeader.wordAt bytes 12 = 1
  responseTo : MessageHeader.wordAt bytes 8 = settings.responseTo
  tiled : Tiles (bytes.extract 36 bytes.size) reply.documents
  count : (MessageHeader.wordAt bytes 32).toInt = reply.documents.length
  header : reply.header = ⟨MessageHeader.wordAt bytes 0, MessageHeader.wordAt bytes 4,
    MessageHeader.wordAt bytes 8, MessageHeader.wordAt bytes 12⟩
  flags : reply.flags = MessageHeader.wordAt bytes 16
  cursorId : reply.cursorId = Word.toInt64 (bytes.extract 20 28)
  startingFrom : reply.startingFrom = MessageHeader.wordAt bytes 28

section

variable {bytes : ByteArray}

-- A field of the body stands behind the header.
theorem extract_body (h : 36 ≤ bytes.size) (start : Nat) {stop : Nat} (hstop : stop ≤ fieldsSize) :
    (bytes.extract MessageHeader.size bytes.size).extract start stop =
      bytes.extract (MessageHeader.size + start) (MessageHeader.size + stop) := by
  have hend : MessageHeader.size + stop ≤ bytes.size := by
    simp only [MessageHeader.size, fieldsSize] at *
    omega
  rw [ByteArray.extract_extract, Nat.min_eq_left hend]

theorem wordAt_body (h : 36 ≤ bytes.size) {offset : Nat} (hoffset : offset + 4 ≤ fieldsSize) :
    MessageHeader.wordAt (bytes.extract MessageHeader.size bytes.size) offset =
      MessageHeader.wordAt bytes (MessageHeader.size + offset) := by
  rw [MessageHeader.wordAt, extract_body h offset hoffset]
  rfl

-- A reply is read just from the bytes that carry it.
theorem readWhole_carries {settings : ReplySettings} {reply : ReplyMessage} :
    readWhole Registry.standard.decodeDocument settings bytes = .ok reply ↔
      Carries settings bytes reply := by
  have hbody : (bytes.extract MessageHeader.size bytes.size).size = bytes.size - 16 := by
    rw [ByteArray.size_extract, Nat.min_self]
    rfl
  rw [readWhole_eq_ok]
  constructor
  · rintro ⟨header, hpeek, hcheck, hread⟩
    obtain ⟨_, rfl⟩ := peek_eq_ok.mp hpeek
    obtain ⟨hallowed, hdeclared, hcode, hresponse⟩ := checkHeader_eq_ok.mp hcheck
    obtain ⟨hfields, hdocuments, hcount, hreply⟩ := readBody_eq_ok.mp hread
    have hlong : 36 ≤ bytes.size := by
      rw [hbody, fieldsSize] at hfields
      omega
    rw [extract_documentBytes, readDocuments_eq_ok] at hdocuments
    rw [wordAt_body hlong (by decide)] at hcount
    rw [wordAt_body hlong (by decide), wordAt_body hlong (by decide),
      extract_body hlong _ (by decide)] at hreply
    simp only [MessageHeader.size, Nat.reduceAdd] at hcount hreply
    have hheader := congrArg header hreply
    have hflags := congrArg flags hreply
    have hcursor := congrArg cursorId hreply
    have hstart := congrArg startingFrom hreply
    exact ⟨hlong, hallowed, hdeclared, hcode, hresponse, hdocuments, hcount, hheader, hflags,
      hcursor, hstart⟩
  · intro h
    have hlong := h.long
    have hheader : MessageHeader.size ≤ bytes.size := Nat.le_trans (by decide) hlong
    refine ⟨_, peek_eq_ok.mpr ⟨hheader, rfl⟩,
      checkHeader_eq_ok.mpr ⟨h.allowed, h.declared, h.isReply, h.responseTo⟩,
      readBody_eq_ok.mpr ⟨?_, ?_, ?_, ?_⟩⟩
    · rw [hbody, fieldsSize]
      omega
    · rw [extract_documentBytes, readDocuments_eq_ok]
      exact h.tiled
    · rw [wordAt_body hlong (by decide)]
      exact h.count
    · rw [wordAt_body hlong (by decide), wordAt_body hlong (by decide),
        extract_body hlong _ (by decide)]
      obtain ⟨header, flags, cursorId, startingFrom, documents⟩ := reply
      obtain ⟨_, _, _, _, _, _, _, rfl, rfl, rfl, rfl⟩ := h
      rfl

end

end ReplyMessage

end DocWire

import DocWire.Element.Reader
import DocWire.Message.Framing
import DocWire.Message.Settings

namespace DocWire

-- The answer to a request. The first document is the result of a command; more of them belong to
-- a cursor.
structure ReplyMessage where
  header : MessageHeader
  flags : Int32
  cursorId : Int64
  startingFrom : Int32
  documents : List Document

namespace ReplyMessage

-- The flag of a query that failed; the document of such a reply is the error.
def queryFailure : Int32 := 2

def ofDocuments (id responseTo : Int32) (documents : List Document) : ReplyMessage where
  header := ⟨0, id, responseTo, OpCode.reply.code⟩
  flags := 0
  cursorId := 0
  startingFrom := 0
  documents := documents

def withQueryFailure (r : ReplyMessage) : ReplyMessage :=
  { r with flags := r.flags ||| queryFailure }

def queryFailed (r : ReplyMessage) : Bool :=
  r.flags &&& queryFailure ≠ 0

def first? (r : ReplyMessage) : Option Document :=
  r.documents.head?

-- The fields between the header and the documents.
def fieldsSize : Nat := 20

def fieldBytes (r : ReplyMessage) (count : Int32) : ByteArray :=
  Word.int32 r.flags ++ Word.int64 r.cursorId ++ Word.int32 r.startingFrom ++ Word.int32 count

def writeDocuments (encoder : Encoder Document) : List Document → Framing Unit
  | [] => return ()
  | d :: rest => do
    Framing.write (encoder d)
    writeDocuments encoder rest

-- Appends the reply to a buffer, which stays as it is if that fails.
def encode (r : ReplyMessage) (encoder : Encoder Document) : Framing Unit :=
  if Word.maxLength < r.documents.length then throw (.invalidReply .tooManyDocuments)
  else
    Framing.message r.header Word.maxLength do
      Framing.append (r.fieldBytes (Int32.ofNat r.documents.length))
      writeDocuments encoder r.documents

-- The header in front of a message.
def peek (bytes : ByteArray) : Except CommandError MessageHeader :=
  match MessageHeader.ofBytes? bytes with
  | some header => .ok header
  | none => .error (.invalidReply (.shortHeader bytes.size))

-- The size that the document in front of some bytes declares, if it is one that they can hold.
def documentSize (bytes : ByteArray) : Except CommandError Nat :=
  if bytes.size < 4 then .error (.codec (.truncated (4 - bytes.size)))
  else
    let length := MessageHeader.wordAt bytes 0
    let size := length.toInt.toNat
    if 5 ≤ size ∧ size ≤ bytes.size then .ok size
    else .error (.invalidReply (.documentLength length bytes.size))

theorem documentSize_bounds {bytes : ByteArray} {size : Nat} (h : documentSize bytes = .ok size) :
    5 ≤ size ∧ size ≤ bytes.size := by
  simp only [documentSize] at h
  split at h
  · cases h
  · split at h
    · cases h
      assumption
    · cases h

-- Reads a document from exactly these bytes.
def readDocument (decoder : Decoder Document) (bytes : ByteArray) : Except CommandError Document :=
  match decoder (Reader.ofBytes bytes) with
  | .ok d _ => .ok d
  | .error e _ => .error (.codec e)

-- Reads documents up to the end of the bytes.
def readDocuments (decoder : Decoder Document) (bytes : ByteArray) :
    Except CommandError (List Document) :=
  if bytes.size = 0 then .ok []
  else
    match _h : documentSize bytes with
    | .error e => .error e
    | .ok size =>
      match readDocument decoder (bytes.extract 0 size) with
      | .error e => .error e
      | .ok d =>
        match readDocuments decoder (bytes.extract size bytes.size) with
        | .error e => .error e
        | .ok rest => .ok (d :: rest)
termination_by bytes.size
decreasing_by
  have := documentSize_bounds _h
  rw [ByteArray.size_extract]
  omega

-- Whether a message is a reply to the request in question, of a size that is allowed and declared.
def checkHeader (bytes : ByteArray) (settings : ReplySettings) (h : MessageHeader) :
    Except CommandError Unit :=
  if settings.maxMessageSize < bytes.size then
    .error (.oversizedMessage bytes.size settings.maxMessageSize)
  else if h.length.toInt ≠ bytes.size then
    .error (.invalidReply (.wrongLength h.length bytes.size))
  else if OpCode.ofCode? h.opCode ≠ some .reply then .error (.unexpectedOpCode h.opCode)
  else if h.responseTo ≠ settings.responseTo then
    .error (.responseMismatch settings.responseTo h.responseTo)
  else .ok ()

-- Reads what follows the header.
def readBody (decoder : Decoder Document) (h : MessageHeader) (body : ByteArray) :
    Except CommandError ReplyMessage := do
  if body.size < fieldsSize then throw (.invalidReply .shortFields)
  let documents ← readDocuments decoder (body.extract fieldsSize body.size)
  let count := MessageHeader.wordAt body 16
  if count.toInt ≠ documents.length then
    throw (.invalidReply (.documentCount count documents.length))
  return {
    header := h
    flags := MessageHeader.wordAt body 0
    cursorId := Word.toInt64 (body.extract 4 12)
    startingFrom := MessageHeader.wordAt body 12
    documents := documents }

-- Reads a reply and checks that it answers the request. A failed query ends with its document as
-- the error.
def decode (decoder : Decoder Document) (settings : ReplySettings) (bytes : ByteArray) :
    Except CommandError ReplyMessage := do
  let h ← peek bytes
  checkHeader bytes settings h
  let reply ← readBody decoder h (bytes.extract MessageHeader.size bytes.size)
  if reply.queryFailed then throw (.queryFailure (reply.first?.getD .empty))
  return reply

end ReplyMessage

end DocWire
